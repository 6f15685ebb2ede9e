import StackMaps.Body.Basic
import Mathlib.Data.Nat.Count

/-!
# Woven bodies

Labels are put between instructions, at most one in front of each position. Every
instruction moves by the number of labels that are put in front of it and of those
before it.
-/

namespace StackMaps

/-- Put labels between the instructions from a position on, in front of the instructions
at their positions. -/
def weave (label? : Nat → Option Label) : Nat → List Instruction → List Instruction
  | _, [] => []
  | position, instruction :: rest =>
      (label? position).toList.map .mark ++ instruction :: weave label? (position + 1) rest

section Positions

variable (label? : Nat → Option Label)

/-- Where the label in front of a position comes to lie, or else the instruction there. -/
def front (position : Nat) : Nat :=
  position + Nat.count (fun before => (label? before).isSome = true) position

/-- Where the instruction at a position comes to lie. -/
def moved (position : Nat) : Nat :=
  front label? position + if (label? position).isSome then 1 else 0

variable {label? : Nat → Option Label} {position other : Nat}

@[simp] theorem front_zero : front label? 0 = 0 := by
  simp [front]

theorem front_succ : front label? (position + 1) = moved label? position + 1 := by
  simp only [front, moved, Nat.count_succ]
  omega

theorem front_le_moved : front label? position ≤ moved label? position :=
  Nat.le_add_right _ _

theorem moved_of_none (silent : label? position = none) :
    moved label? position = front label? position := by
  simp [moved, silent]

theorem moved_of_some {label : Label} (present : label? position = some label) :
    moved label? position = front label? position + 1 := by
  simp [moved, present]

theorem moved_lt_front (less : position < other) : moved label? position < front label? other := by
  induction less with
  | refl => exact Nat.lt_of_lt_of_eq (Nat.lt_succ_self _) front_succ.symm
  | step _ hypothesis =>
      rw [front_succ]
      exact Nat.lt_succ_of_lt (Nat.lt_of_lt_of_le hypothesis front_le_moved)

theorem front_strictMono : StrictMono (front label?) :=
  fun _ _ less => Nat.lt_of_le_of_lt front_le_moved (moved_lt_front less)

theorem moved_strictMono : StrictMono (moved label?) :=
  fun _ _ less => Nat.lt_of_lt_of_le (moved_lt_front less) front_le_moved

end Positions

/-! ## Looking up -/

section Lists

variable {label? : Nat → Option Label} {position : Nat} {instructions : List Instruction}

theorem weave_append (others : List Instruction) :
    weave label? position (instructions ++ others) =
      weave label? position instructions ++
        weave label? (position + instructions.length) others := by
  induction instructions generalizing position with
  | nil => simp [weave]
  | cons instruction rest hypothesis =>
      simp only [List.cons_append, weave, hypothesis, List.append_assoc, List.length_cons]
      rw [show position + 1 + rest.length = position + (rest.length + 1) by omega]

/-- A woven list ends where the label in front of the next position would lie. -/
theorem length_weave :
    front label? position + (weave label? position instructions).length =
      front label? (position + instructions.length) := by
  induction instructions generalizing position with
  | nil => simp [weave]
  | cons instruction rest hypothesis =>
      have further := @hypothesis (position + 1)
      rw [show position + (instruction :: rest).length = position + 1 + rest.length by
        simp only [List.length_cons]; omega, ← further, front_succ]
      cases found : label? position with
      | none =>
          rw [moved_of_none found]
          simp only [weave, found, Option.toList_none, List.map_nil, List.nil_append,
            List.length_cons]
          omega
      | some label =>
          rw [moved_of_some found]
          simp only [weave, found, Option.toList_some, List.map_cons, List.map_nil,
            List.cons_append, List.nil_append, List.length_cons]
          omega

theorem length_weave_zero :
    (weave label? 0 instructions).length = front label? instructions.length := by
  have length_eq := @length_weave label? 0 instructions
  rwa [front_zero, Nat.zero_add, Nat.zero_add] at length_eq

/-- What comes to lie in front of an instruction, with its label, and what behind it. -/
theorem exists_weave_eq {place : Nat} {instruction : Instruction}
    (found : instructions[place]? = some instruction) :
    ∃ before after,
      weave label? 0 instructions =
        before ++ ((label? place).toList.map .mark ++ instruction :: after) ∧
      before.length = front label? place := by
  obtain ⟨inside, rfl⟩ := List.getElem?_eq_some_iff.mp found
  have cut : instructions = instructions.take place ++ instructions[place] ::
      instructions.drop (place + 1) := by simp
  have length_eq := List.length_take_of_le (Nat.le_of_lt inside)
  refine ⟨weave label? 0 (instructions.take place),
    weave label? (place + 1) (instructions.drop (place + 1)), ?_, ?_⟩
  · conv_lhs => rw [cut, weave_append]
    rw [length_eq, Nat.zero_add]
    rfl
  · rw [length_weave_zero, length_eq]

/-- An instruction lies where it has moved. -/
theorem getElem?_weave_moved (place : Nat) :
    (weave label? 0 instructions)[moved label? place]? = instructions[place]? := by
  cases found : instructions[place]? with
  | some instruction =>
      obtain ⟨before, after, weave_eq, length_eq⟩ := @exists_weave_eq label? _ _ _ found
      rw [weave_eq, List.getElem?_append_right (length_eq ▸ front_le_moved), length_eq]
      cases present : label? place with
      | none => simp [moved_of_none present]
      | some label => simp [moved_of_some present]
  | none =>
      refine List.getElem?_eq_none ?_
      rw [length_weave_zero]
      exact Nat.le_trans (front_strictMono.monotone (List.getElem?_eq_none_iff.mp found))
        front_le_moved

/-- A label lies in front of the instruction at its position. -/
theorem getElem?_weave_front
    {place : Nat}
    {label : Label}
    (inside : place < instructions.length)
    (present : label? place = some label) :
    (weave label? 0 instructions)[front label? place]? = some (.mark label) := by
  obtain ⟨before, after, weave_eq, length_eq⟩ :=
    @exists_weave_eq label? _ _ _ (List.getElem?_eq_getElem inside)
  rw [weave_eq, List.getElem?_append_right (Nat.le_of_eq length_eq), length_eq]
  simp [present]

/-- At every place of a woven list there is an instruction or a label. -/
theorem exists_place {count place : Nat} (less : place < front label? count) :
    ∃ position, position < count ∧
      (place = moved label? position ∨
        place = front label? position ∧ (label? position).isSome = true) := by
  induction count with
  | zero => simp at less
  | succ count hypothesis =>
      by_cases earlier : place < front label? count
      · obtain ⟨position, inside, lies⟩ := hypothesis earlier
        exact ⟨position, Nat.lt_succ_of_lt inside, lies⟩
      · refine ⟨count, Nat.lt_succ_self count, ?_⟩
        rw [front_succ] at less
        unfold moved at less ⊢
        split at less
        next present =>
            rw [if_pos present]
            by_cases same : place = front label? count
            · exact Or.inr ⟨same, present⟩
            · exact Or.inl (by omega)
        next silent =>
            rw [if_neg silent]
            exact Or.inl (by omega)

/-- What is found in a woven list is an instruction or a label. -/
theorem getElem?_weave_eq_some_iff {place : Nat} {instruction : Instruction} :
    (weave label? 0 instructions)[place]? = some instruction ↔
      ∃ position, position < instructions.length ∧
        (place = moved label? position ∧ instructions[position]? = some instruction ∨
          place = front label? position ∧
            ∃ label, label? position = some label ∧ instruction = .mark label) := by
  constructor
  · intro found
    have inside := (List.getElem?_eq_some_iff.mp found).1
    rw [length_weave_zero] at inside
    obtain ⟨position, less, rfl | ⟨rfl, present⟩⟩ := exists_place inside
    · exact ⟨position, less, Or.inl ⟨rfl, (getElem?_weave_moved position).symm.trans found⟩⟩
    · obtain ⟨label, label_eq⟩ := Option.isSome_iff_exists.mp present
      rw [getElem?_weave_front less label_eq] at found
      exact ⟨position, less, Or.inr ⟨rfl, label, label_eq, (Option.some.inj found).symm⟩⟩
  · rintro ⟨position, less, ⟨rfl, found⟩ | ⟨rfl, label, present, rfl⟩⟩
    · rw [getElem?_weave_moved, found]
    · exact getElem?_weave_front less present

/-- Without the labels that have been put in, the instructions are the same. -/
theorem filter_weave
    {keep : Instruction → Bool}
    (dropped : ∀ position label, label? position = some label → keep (.mark label) = false)
    (position : Nat) :
    (weave label? position instructions).filter keep = instructions.filter keep := by
  induction instructions generalizing position with
  | nil => rfl
  | cons instruction rest hypothesis =>
      have silent : ((label? position).toList.map Instruction.mark).filter keep = [] := by
        cases present : label? position with
        | none => rfl
        | some label => simp [dropped position label present]
      rw [weave, List.filter_append, silent, List.nil_append, List.filter_cons, List.filter_cons,
        hypothesis]

end Lists

end StackMaps
