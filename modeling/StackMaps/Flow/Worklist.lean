/-!
# Worklists

A worklist holds the blocks that an analysis has yet to visit, first come, first
served. No block is on it twice.
-/

namespace StackMaps

/-- The blocks that are waiting. The queue is `front` followed by the reverse of
`back`. -/
structure Worklist where
  front : List Nat
  back : List Nat
  /-- Is each block waiting? -/
  waiting : Array Bool

namespace Worklist

/-- The waiting blocks, in order. -/
def toList (worklist : Worklist) : List Nat :=
  worklist.front ++ worklist.back.reverse

/-- The worklist with one of some blocks on it. -/
def single (count index : Nat) : Worklist :=
  { front := [index]
    back := []
    waiting := (Array.replicate count false).setIfInBounds index true }

/-- Put a block at the end, unless it is waiting already. -/
def push (worklist : Worklist) (index : Nat) : Worklist :=
  if worklist.waiting.getD index false then worklist
  else
    { worklist with
      back := index :: worklist.back
      waiting := worklist.waiting.setIfInBounds index true }

/-- Take the first block, if there is one. -/
def pop : Worklist → Option Nat × Worklist
  | ⟨index :: front, back, waiting⟩ =>
      (some index, ⟨front, back, waiting.setIfInBounds index false⟩)
  | ⟨[], back, waiting⟩ =>
      match back.reverse with
      | [] => (none, ⟨[], [], waiting⟩)
      | index :: front => (some index, ⟨front, [], waiting.setIfInBounds index false⟩)

/-- The block that is taken is the first one, and the others stay. -/
theorem toList_pop (worklist : Worklist) :
    worklist.toList = worklist.pop.1.toList ++ worklist.pop.2.toList := by
  obtain ⟨front, back, waiting⟩ := worklist
  cases front with
  | nil => cases reversed : back.reverse <;> simp [pop, toList, reversed]
  | cons index front => simp [pop, toList]

/-- Only from an empty worklist no block can be taken. -/
theorem pop_eq_none_iff {worklist : Worklist} :
    worklist.pop.1 = none ↔ worklist.toList = [] := by
  obtain ⟨front, back, waiting⟩ := worklist
  cases front with
  | nil => cases reversed : back.reverse <;> simp [pop, toList, reversed]
  | cons index front => simp [pop, toList]

end Worklist

end StackMaps
