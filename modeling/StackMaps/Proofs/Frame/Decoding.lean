import StackMaps.Frame.Basic

/-!
# Decoding frames

A description is decoded relative to the frame before it. The compact description of
a frame decodes to the frame again, keeps within the bounds of its form, and gives
locals and stack in full only if no other form describes the frame.
-/

namespace StackMaps

variable {Operand Origin : Type}

namespace StackMapFrame

/-- The frame that is described, given the frame before it. -/
def decode (form : StackMapFrame Operand Origin) (previous : Frame Operand Origin) :
    Frame Operand Origin :=
  match form with
  | .same stack => ⟨previous.locals, stack.toList⟩
  | .chop count => ⟨previous.locals.take (previous.locals.length - count.toNat), []⟩
  | .append locals => ⟨previous.locals ++ locals, []⟩
  | .full locals stack => ⟨locals, stack⟩

/-- The frames that are described one after the other. -/
def decodeAll (previous : Frame Operand Origin) :
    List (StackMapFrame Operand Origin) → List (Frame Operand Origin)
  | [] => []
  | form :: rest => form.decode previous :: decodeAll (form.decode previous) rest

/-- From one to three locals are taken away or added. -/
def WellFormed : StackMapFrame Operand Origin → Prop
  | .chop count => 1 ≤ count.toNat ∧ count.toNat ≤ 3
  | .append locals => 1 ≤ locals.length ∧ locals.length ≤ 3
  | _ => True

/-- Are locals and stack given in full? -/
def IsFull : StackMapFrame Operand Origin → Prop
  | .full _ _ => True
  | _ => False

/-- A well-formed description of a frame, given the frame before it. -/
structure Describes
    (form : StackMapFrame Operand Origin)
    (previous frame : Frame Operand Origin) : Prop where
  wellFormed : form.WellFormed
  decode_eq : form.decode previous = frame

end StackMapFrame

namespace Frame

variable [DecidableEq Operand] [DecidableEq Origin]
variable {frame previous : Frame Operand Origin}

/-! ## The form that is chosen -/

theorem compact_same : (Frame.mk previous.locals []).compact previous = .same none := by
  simp [compact]

theorem compact_same_some (type : VerificationType Operand Origin) :
    (Frame.mk previous.locals [type]).compact previous = .same (some type) := by
  simp [compact]

theorem compact_append
    {added : List (VerificationType Operand Origin)}
    (positive : 1 ≤ added.length)
    (few : added.length ≤ 3) :
    (Frame.mk (previous.locals ++ added) []).compact previous = .append added := by
  have some_ : added ≠ [] := List.length_pos_iff.mp positive
  have near : added.length < 4 := Nat.lt_succ_of_le few
  simp [compact, some_, near]

theorem compact_chop
    {count : Nat}
    (positive : 1 ≤ count)
    (few : count ≤ 3)
    (within : count ≤ previous.locals.length) :
    (Frame.mk (previous.locals.take (previous.locals.length - count)) []).compact previous =
      .chop (UInt8.ofNat count) := by
  have length_eq : (previous.locals.take (previous.locals.length - count)).length =
      previous.locals.length - count := by
    rw [List.length_take]
    omega
  have distinct : previous.locals.take (previous.locals.length - count) ≠ previous.locals := by
    intro same
    have := congrArg List.length same
    omega
  have notLonger : ¬previous.locals.length < previous.locals.length - count := by omega
  have shorter : previous.locals.length - count < previous.locals.length := by omega
  have count_eq : previous.locals.length - (previous.locals.length - count) = count := by omega
  have near : count < 4 := Nat.lt_succ_of_le few
  simp only [compact, distinct, length_eq, notLonger, shorter, count_eq, near, if_false,
    decide_false, decide_true, Bool.false_and, Bool.true_and, Bool.false_eq_true,
    beq_self_eq_true, if_true]

/-! ## Decoding what has been chosen -/

omit [DecidableEq Operand] [DecidableEq Origin] in
theorem describes_append
    {locals : List (VerificationType Operand Origin)}
    (longer : previous.locals.length < locals.length)
    (near : locals.length - previous.locals.length < 4)
    (prefix_eq : locals.take previous.locals.length = previous.locals) :
    (StackMapFrame.append (locals.drop previous.locals.length)).Describes previous
      ⟨locals, []⟩ := by
  have length_eq : (locals.drop previous.locals.length).length =
      locals.length - previous.locals.length := List.length_drop
  refine ⟨⟨by omega, by omega⟩, ?_⟩
  have whole := List.take_append_drop previous.locals.length locals
  rw [prefix_eq] at whole
  rw [StackMapFrame.decode, whole]

omit [DecidableEq Operand] [DecidableEq Origin] in
theorem describes_chop
    {locals : List (VerificationType Operand Origin)}
    (shorter : locals.length < previous.locals.length)
    (near : previous.locals.length - locals.length < 4)
    (prefix_eq : locals = previous.locals.take locals.length) :
    (StackMapFrame.chop (UInt8.ofNat (previous.locals.length - locals.length))).Describes
      previous ⟨locals, []⟩ := by
  have count_eq : (UInt8.ofNat (previous.locals.length - locals.length)).toNat =
      previous.locals.length - locals.length :=
    UInt8.toNat_ofNat_of_lt' (by simp only [UInt8.size]; omega)
  have rest_eq : previous.locals.length - (previous.locals.length - locals.length) =
      locals.length := by omega
  refine ⟨⟨by omega, by omega⟩, ?_⟩
  rw [StackMapFrame.decode, count_eq, rest_eq, ← prefix_eq]

/-- The compact description of a frame is well-formed and decodes to the frame. -/
theorem describes_compact (frame previous : Frame Operand Origin) :
    (frame.compact previous).Describes previous frame := by
  obtain ⟨locals, stack⟩ := frame
  cases stack with
  | nil =>
      simp only [compact]
      split
      next same => exact ⟨trivial, by rw [StackMapFrame.decode, ← same]; rfl⟩
      next =>
          split
          next extends_ =>
              simp only [Bool.and_eq_true, decide_eq_true_eq, beq_iff_eq] at extends_
              exact describes_append extends_.1.1 extends_.1.2 extends_.2
          next =>
              split
              next truncates =>
                  simp only [Bool.and_eq_true, decide_eq_true_eq, beq_iff_eq] at truncates
                  exact describes_chop truncates.1.1 truncates.1.2 truncates.2
              next => exact ⟨trivial, rfl⟩
  | cons type rest =>
      cases rest with
      | nil =>
          simp only [compact]
          split
          next same => exact ⟨trivial, by rw [StackMapFrame.decode, ← same]; rfl⟩
          next => exact ⟨trivial, rfl⟩
      | cons other rest => exact ⟨trivial, rfl⟩

/-- Locals and stack are given in full only if no other form describes the frame. -/
theorem isFull_of_describes
    {form : StackMapFrame Operand Origin}
    (full : (frame.compact previous).IsFull)
    (describes : form.Describes previous frame) :
    form.IsFull := by
  obtain ⟨wellFormed, rfl⟩ := describes
  cases form with
  | same stack =>
      cases stack with
      | none =>
          rw [StackMapFrame.decode, Option.toList_none, compact_same] at full
          exact full.elim
      | some type =>
          rw [StackMapFrame.decode, Option.toList_some, compact_same_some] at full
          exact full.elim
  | chop count =>
      obtain ⟨positive, few⟩ := wellFormed
      rw [StackMapFrame.decode] at full
      -- more locals than there are cannot be taken away
      have lost : previous.locals.length - count.toNat =
          previous.locals.length - min count.toNat previous.locals.length := by omega
      rw [lost] at full
      by_cases none_ : previous.locals.length = 0
      · have all : previous.locals.take 0 = previous.locals := by
          rw [List.take_zero, List.length_eq_zero_iff.mp none_]
        rw [none_, Nat.zero_sub, all, compact_same] at full
        exact full.elim
      · rw [compact_chop (by omega) (by omega) (by omega)] at full
        exact full.elim
  | append added =>
      obtain ⟨positive, few⟩ := wellFormed
      rw [StackMapFrame.decode, compact_append positive few] at full
      exact full.elim
  | full locals stack => exact trivial

/-! ## Frames one after the other -/

/-- The descriptions of some frames, each given the frame before it. -/
def compactAll (previous : Frame Operand Origin) (frames : List (Frame Operand Origin)) :
    List (StackMapFrame Operand Origin) :=
  List.zipWith compact frames (previous :: frames)

/-- The descriptions decode to the frames again. -/
theorem decodeAll_compactAll (previous : Frame Operand Origin)
    (frames : List (Frame Operand Origin)) :
    StackMapFrame.decodeAll previous (compactAll previous frames) = frames := by
  induction frames generalizing previous with
  | nil => rfl
  | cons frame rest hypothesis =>
      have decoded := (describes_compact frame previous).decode_eq
      have later := hypothesis frame
      simp only [compactAll, List.zipWith_cons_cons, StackMapFrame.decodeAll, decoded] at later ⊢
      rw [later]

/-- Each description is the compact one of its frame, given the frame before it. -/
theorem getElem?_compactAll
    {previous : Frame Operand Origin}
    {frames : List (Frame Operand Origin)}
    {place : Nat}
    {form : StackMapFrame Operand Origin}
    (found : (compactAll previous frames)[place]? = some form) :
    ∃ before frame, (previous :: frames)[place]? = some before ∧ frames[place]? = some frame ∧
      form = frame.compact before := by
  rw [compactAll, List.getElem?_zipWith] at found
  split at found
  next frame before frame_eq before_eq =>
      exact ⟨before, frame, before_eq, frame_eq, (Option.some.inj found).symm⟩
  next => simp at found

end Frame

end StackMaps
