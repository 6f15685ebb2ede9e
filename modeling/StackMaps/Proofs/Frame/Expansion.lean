import Mathlib.Data.List.TakeWhile
import StackMaps.Frame.Basic
import StackMaps.Proofs.Slots.Pairing

/-!
# Expanding frames

The values of a frame take slots again, a wide one two of them. Slots in which every
wide value has `top` behind it are read as values without a loss: the values expand
to the slots again, with `top` for the unknown ones and for those at the end that a
frame leaves out.
-/

namespace StackMaps

variable {Operand Origin : Type}

/-- The slots of some values. A wide value has `top` behind it. -/
def expand (types : List (VerificationType Operand Origin)) :
    List (VerificationType Operand Origin) :=
  types.flatMap fun type => if type.isWide then [type, .top] else [type]

@[simp] theorem expand_nil :
    expand ([] : List (VerificationType Operand Origin)) = [] := rfl

theorem expand_cons
    (type : VerificationType Operand Origin)
    (rest : List (VerificationType Operand Origin)) :
    expand (type :: rest) = (if type.isWide then [type, .top] else [type]) ++ expand rest :=
  List.flatMap_cons

theorem expand_append (left right : List (VerificationType Operand Origin)) :
    expand (left ++ right) = expand left ++ expand right :=
  List.flatMap_append

theorem expand_replicate_top (count : Nat) :
    expand (List.replicate count (.top : VerificationType Operand Origin)) =
      List.replicate count .top := by
  induction count with
  | zero => rfl
  | succ count hypothesis =>
      rw [List.replicate_succ, expand_cons, hypothesis]
      rfl

/-- Paired slots that are read as values expand to the slots again. -/
theorem expand_collapse
    {slots : List (Option (VerificationType Operand Origin))}
    (paired : Paired slots) :
    expand (collapse slots) = slots.map fun slot => slot.getD .top := by
  induction slots using collapse_induction with
  | nil => rw [collapse_nil, expand_nil, List.map_nil]
  | cons slot rest hypothesis =>
      obtain ⟨first, restPaired⟩ := paired_cons_iff.mp paired
      rw [collapse_cons, expand_cons, List.map_cons]
      by_cases wide : (slot.getD .top).isWide = true
      · -- the slot behind a wide value is skipped by the reading and made up again
        obtain ⟨behind, rfl⟩ : ∃ behind, rest = some .top :: behind := by
          cases rest with
          | nil => cases first wide
          | cons top behind =>
              obtain rfl : top = some .top := Option.some.inj (first wide)
              exact ⟨behind, rfl⟩
        rw [if_pos wide, List.drop_one, List.tail_cons] at hypothesis ⊢
        rw [if_pos wide, hypothesis (paired_cons_iff.mp restPaired).2]
        rfl
      · rw [if_neg wide] at hypothesis ⊢
        rw [if_neg wide, hypothesis restPaired]
        rfl

/-- Without the last elements that have a value, a list lacks copies of that value. -/
theorem exists_append_replicate
    {α : Type}
    [DecidableEq α]
    (value : α)
    (elements : List α) :
    ∃ count, elements =
      (elements.reverse.dropWhile (· == value)).reverse ++ List.replicate count value := by
  refine ⟨(elements.reverse.takeWhile (· == value)).length, ?_⟩
  have copies : elements.reverse.takeWhile (· == value) =
      List.replicate (elements.reverse.takeWhile (· == value)).length value := by
    refine List.eq_replicate_iff.mpr ⟨rfl, fun element present => ?_⟩
    simpa using List.mem_takeWhile_imp present
  have whole := congrArg List.reverse
    (List.takeWhile_append_dropWhile (p := (· == value)) (l := elements.reverse))
  rw [copies, List.reverse_append, List.reverse_replicate, List.reverse_reverse] at whole
  exact whole.symm

namespace Frame

variable [DecidableEq Operand] [DecidableEq Origin]
variable {slots : List (Option (VerificationType Operand Origin))}

/-- The locals of a frame of paired slots expand to the slots again, filled up with `top`. -/
theorem rightpad_expand_locals_ofSlots
    (paired : Paired slots)
    (stack : List (Option (VerificationType Operand Origin))) :
    (expand (ofSlots slots stack).locals).rightpad slots.length .top =
      slots.map fun slot => slot.getD .top := by
  obtain ⟨count, whole⟩ := exists_append_replicate .top (collapse slots)
  have expanded := expand_collapse paired
  rw [whole, expand_append, expand_replicate_top] at expanded
  have length_eq := congrArg List.length expanded
  rw [List.length_append, List.length_replicate, List.length_map] at length_eq
  have locals_eq : (ofSlots slots stack).locals =
      ((collapse slots).reverse.dropWhile (· == .top)).reverse := rfl
  rw [List.rightpad, ← expanded, locals_eq, ← length_eq, Nat.add_sub_cancel_left]

theorem length_expand_locals_ofSlots_le
    (paired : Paired slots)
    (stack : List (Option (VerificationType Operand Origin))) :
    (expand (ofSlots slots stack).locals).length ≤ slots.length := by
  have padded := congrArg List.length (rightpad_expand_locals_ofSlots paired stack)
  rw [List.length_rightpad, List.length_map] at padded
  omega

end Frame

end StackMaps
