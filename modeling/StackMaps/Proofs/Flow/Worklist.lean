import StackMaps.Flow.Notes
import Mathlib.Logic.Relation

/-!
# Worklists at work

A worklist is consistent if its flags tell exactly which blocks wait and no block
waits twice. A run goes from one moment to the next by visiting the block that
waits longest. What every visit keeps holds at all moments of a run, and a run
whose visits use up a measure ends with nobody waiting.
-/

namespace StackMaps
namespace Worklist

variable {worklist rest : Worklist} {count index : Nat}

/-- The flags of a worklist tell which of `count` blocks wait, and none of these
waits twice. -/
structure Consistent (worklist : Worklist) (count : Nat) : Prop where
  size_eq : worklist.waiting.size = count
  nodup : worklist.toList.Nodup
  waiting_iff : ∀ index, worklist.waiting.getD index false = true ↔ index ∈ worklist.toList

/-- A block that waits is one of those that are counted. -/
theorem Consistent.lt_of_mem
    (consistent : worklist.Consistent count)
    (waits : index ∈ worklist.toList) :
    index < count := by
  have flag := (consistent.waiting_iff index).mpr waits
  rw [← consistent.size_eq]
  apply Decidable.byContradiction
  intro outside
  simp [Array.getD, outside] at flag

/-- A block that is pushed stands behind the others, unless it waits already. -/
theorem toList_push (worklist : Worklist) (index : Nat) :
    (worklist.push index).toList =
      if worklist.waiting.getD index false then worklist.toList
      else worklist.toList ++ [index] := by
  unfold push
  split
  · rfl
  · simp [toList]

theorem Consistent.toList_push
    (consistent : worklist.Consistent count)
    (index : Nat) :
    (worklist.push index).toList =
      if index ∈ worklist.toList then worklist.toList
      else worklist.toList ++ [index] := by
  rw [Worklist.toList_push]
  simp only [consistent.waiting_iff index]

/-- Those who wait after a push are those before and the new one. -/
theorem Consistent.mem_push
    (consistent : worklist.Consistent count)
    {other : Nat} :
    other ∈ (worklist.push index).toList ↔ other = index ∨ other ∈ worklist.toList := by
  rw [consistent.toList_push]
  split
  next waits =>
      constructor
      · exact Or.inr
      · rintro (rfl | before)
        · exact waits
        · exact before
  next =>
      rw [List.mem_append, List.mem_singleton, or_comm]

theorem Consistent.push
    (consistent : worklist.Consistent count)
    (inside : index < count) :
    (worklist.push index).Consistent count := by
  have members : ∀ other, other ∈ (worklist.push index).toList ↔
      other = index ∨ other ∈ worklist.toList := fun other => consistent.mem_push
  refine ⟨?_, ?_, ?_⟩
  · have size_eq := consistent.size_eq
    unfold Worklist.push
    split <;> simp [size_eq]
  · rw [consistent.toList_push]
    split
    next => exact consistent.nodup
    next absent =>
        refine List.nodup_append.mpr ⟨consistent.nodup, by simp, ?_⟩
        intro other before new isNew equal
        rw [List.mem_singleton] at isNew
        exact absent (isNew ▸ equal ▸ before)
  · intro other
    rw [members other, ← consistent.waiting_iff other]
    unfold Worklist.push
    split
    next waits =>
        constructor
        · exact Or.inr
        · rintro (rfl | before)
          · exact waits
          · exact before
    next =>
        by_cases same : other = index
        · subst same
          simp [Array.getD, consistent.size_eq, inside]
        · have distinct : ¬index = other := fun equal => same equal.symm
          simp [Array.getD_eq_getD_getElem?, same, distinct]

/-- From a worklist on which nobody waits nothing is taken, and it stays as it is. -/
theorem eq_of_pop_eq_none (popped : worklist.pop = (none, rest)) :
    rest = worklist ∧ worklist.toList = [] := by
  have empty : worklist.toList = [] := pop_eq_none_iff.mp (by rw [popped])
  refine ⟨?_, empty⟩
  obtain ⟨front, back, waiting⟩ := worklist
  simp only [toList, List.append_eq_nil_iff, List.reverse_eq_nil_iff] at empty
  obtain ⟨rfl, rfl⟩ := empty
  simpa [pop] using popped.symm

/-- The block that is taken was the first one. -/
theorem toList_of_pop_eq_some (popped : worklist.pop = (some index, rest)) :
    worklist.toList = index :: rest.toList := by
  simpa [popped] using toList_pop worklist

/-- Only the flag of the block that is taken changes. -/
theorem waiting_of_pop_eq_some (popped : worklist.pop = (some index, rest)) :
    rest.waiting = worklist.waiting.setIfInBounds index false := by
  obtain ⟨front, back, waiting⟩ := worklist
  cases front with
  | cons first front =>
      simp only [pop, Prod.mk.injEq, Option.some.injEq] at popped
      obtain ⟨rfl, rfl⟩ := popped
      rfl
  | nil =>
      cases reversed : back.reverse with
      | nil => simp [pop, reversed] at popped
      | cons first front =>
          simp only [pop, reversed, Prod.mk.injEq, Option.some.injEq] at popped
          obtain ⟨rfl, rfl⟩ := popped
          rfl

theorem mem_of_pop_eq_some (popped : worklist.pop = (some index, rest)) :
    index ∈ worklist.toList := by
  rw [toList_of_pop_eq_some popped]
  exact List.mem_cons_self

theorem Consistent.pop
    (consistent : worklist.Consistent count)
    (popped : worklist.pop = (some index, rest)) :
    rest.Consistent count := by
  have order := toList_of_pop_eq_some popped
  have flags := waiting_of_pop_eq_some popped
  have nodup := consistent.nodup
  rw [order, List.nodup_cons] at nodup
  refine ⟨?_, nodup.2, ?_⟩
  · rw [flags, Array.size_setIfInBounds, consistent.size_eq]
  · intro other
    by_cases same : other = index
    · subst same
      simp only [nodup.1, iff_false, flags]
      simp [Array.getD_eq_getD_getElem?, Array.getElem?_setIfInBounds]
      split <;> simp
    · have distinct : ¬index = other := fun equal => same equal.symm
      have before := consistent.waiting_iff other
      rw [order, List.mem_cons, or_iff_right same] at before
      rw [← before, flags]
      simp [Array.getD_eq_getD_getElem?, distinct]

/-- On a worklist with one block this one waits. -/
theorem toList_single (count index : Nat) : (single count index).toList = [index] := rfl

theorem consistent_single (inside : index < count) :
    (single count index).Consistent count := by
  refine ⟨by simp [single], by simp [toList_single], ?_⟩
  intro other
  rw [toList_single, List.mem_singleton]
  by_cases same : other = index
  · subst same
    simp [single, Array.getD, inside]
  · have distinct : ¬index = other := fun equal => same equal.symm
    simp [single, Array.getD_eq_getD_getElem?, Array.getElem?_replicate, same, distinct]
    split <;> simp

end Worklist

namespace Progress

/-- The notes on a block change when new ones are taken on it, and only then. -/
theorem notesOn_record
    (progress : Progress)
    (index other : Nat)
    (notes : Notes)
    (inside : index < progress.notes.size) :
    (progress.record index notes).notesOn other =
      if other = index then notes else progress.notesOn other := by
  by_cases same : other = index
  · subst same
    simp [notesOn, record, Array.getD, inside]
  · have distinct : ¬index = other := fun equal => same equal.symm
    simp [notesOn, record, Array.getD_eq_getD_getElem?, same, distinct]

/-- Nothing is known of a block that does not exist. -/
theorem notesOn_of_size_le
    {progress : Progress}
    {index : Nat}
    (outside : progress.notes.size ≤ index) :
    progress.notesOn index = .blank := by
  simp [notesOn, Array.getD, Nat.not_lt.mpr outside]

theorem notesOn_mem
    {progress : Progress}
    {index : Nat}
    (inside : index < progress.notes.size) :
    progress.notesOn index ∈ progress.notes.toList := by
  simp [notesOn, Array.getD, inside]

theorem exists_notesOn_eq
    {progress : Progress}
    {notes : Notes}
    (present : notes ∈ progress.notes.toList) :
    ∃ index, index < progress.notes.size ∧ progress.notesOn index = notes := by
  obtain ⟨index, inside, rfl⟩ := List.getElem_of_mem present
  rw [Array.length_toList] at inside
  exact ⟨index, inside, by simp [notesOn, Array.getD, inside]⟩

@[simp] theorem size_record (progress : Progress) (index : Nat) (notes : Notes) :
    (progress.record index notes).notes.size = progress.notes.size := by
  simp [record]

@[simp] theorem worklist_record (progress : Progress) (index : Nat) (notes : Notes) :
    (progress.record index notes).worklist = progress.worklist := rfl

@[simp] theorem notes_enqueue (progress : Progress) (index : Nat) :
    (progress.enqueue index).notes = progress.notes := rfl

@[simp] theorem notesOn_enqueue (progress : Progress) (index other : Nat) :
    (progress.enqueue index).notesOn other = progress.notesOn other := rfl

@[simp] theorem worklist_enqueue (progress : Progress) (index : Nat) :
    (progress.enqueue index).worklist = progress.worklist.push index := rfl

/-- Taking the notes that are there already changes nothing. -/
@[simp] theorem record_notesOn (progress : Progress) (index : Nat) :
    progress.record index (progress.notesOn index) = progress := by
  obtain ⟨notes, worklist⟩ := progress
  simp only [record, notesOn, mk.injEq, and_true]
  by_cases inside : index < notes.size
  · simp [Array.getD, inside, Array.setIfInBounds]
  · simp [Array.setIfInBounds, inside]

/-- A block is taken off the worklist and visited. -/
def Visits
    (visit : Progress → Nat → Progress)
    (before after : Progress) : Prop :=
  ∃ index rest, before.worklist.pop = (some index, rest) ∧
    after = visit ⟨before.notes, rest⟩ index

/-- A moment of the run from a start. -/
abbrev Reaches (visit : Progress → Nat → Progress) : Progress → Progress → Prop :=
  Relation.ReflTransGen (Visits visit)

variable {visit : Progress → Nat → Progress}

/-- A run visits the blocks one after the other. -/
theorem run_of_pop_eq_some
    {progress : Progress}
    {index : Nat}
    {rest : Worklist}
    (popped : progress.worklist.pop = (some index, rest))
    (fuel : Nat) :
    run visit (fuel + 1) progress = run visit fuel (visit ⟨progress.notes, rest⟩ index) := by
  obtain ⟨notes, worklist⟩ := progress
  simp only [run]
  rw [popped]

/-- A run ends when nobody waits. -/
theorem run_of_pop_eq_none
    {progress : Progress}
    {rest : Worklist}
    (popped : progress.worklist.pop = (none, rest))
    (fuel : Nat) :
    run visit fuel progress = progress := by
  obtain ⟨notes, worklist⟩ := progress
  obtain ⟨same, _⟩ := Worklist.eq_of_pop_eq_none popped
  cases fuel with
  | zero => rfl
  | succ fuel =>
      simp only [run]
      rw [popped, same]

/-- The end of a run is one of its moments. -/
theorem reaches_run (fuel : Nat) (start : Progress) :
    Reaches visit start (run visit fuel start) := by
  induction fuel generalizing start with
  | zero =>
      obtain ⟨notes, worklist⟩ := start
      exact Relation.ReflTransGen.refl
  | succ fuel hypothesis =>
      cases popped : start.worklist.pop with
      | mk taken rest =>
          cases taken with
          | none =>
              rw [run_of_pop_eq_none popped]
          | some index =>
              rw [run_of_pop_eq_some popped]
              exact Relation.ReflTransGen.head ⟨index, rest, popped, rfl⟩ (hypothesis _)

/-- What holds at the start and is kept by every visit holds at all moments. -/
theorem Reaches.invariant
    {start progress : Progress}
    (reaches : Reaches visit start progress)
    (Invariant : Progress → Prop)
    (atStart : Invariant start)
    (kept : ∀ before after, Reaches visit start before → Invariant before →
      Visits visit before after → Invariant after) :
    Invariant progress := by
  induction reaches with
  | refl => exact atStart
  | tail reached visits hypothesis => exact kept _ _ reached hypothesis visits

/-- A run whose visits use up a measure ends with nobody waiting. -/
theorem toList_run_eq_nil
    (Invariant : Progress → Prop)
    (measure : Progress → Nat)
    (kept : ∀ before after, Invariant before → Visits visit before after →
      Invariant after ∧ measure after < measure before)
    (fuel : Nat)
    (start : Progress)
    (atStart : Invariant start)
    (enough : measure start ≤ fuel) :
    (run visit fuel start).worklist.toList = [] := by
  induction fuel generalizing start with
  | zero =>
      cases popped : start.worklist.pop with
      | mk taken rest =>
          cases taken with
          | none =>
              rw [run_of_pop_eq_none popped]
              exact (Worklist.eq_of_pop_eq_none popped).2
          | some index =>
              have := (kept _ _ atStart ⟨index, rest, popped, rfl⟩).2
              omega
  | succ fuel hypothesis =>
      cases popped : start.worklist.pop with
      | mk taken rest =>
          cases taken with
          | none =>
              rw [run_of_pop_eq_none popped]
              exact (Worklist.eq_of_pop_eq_none popped).2
          | some index =>
              rw [run_of_pop_eq_some popped]
              obtain ⟨after, less⟩ := kept _ _ atStart ⟨index, rest, popped, rfl⟩
              exact hypothesis _ after (by omega)

end Progress
end StackMaps
