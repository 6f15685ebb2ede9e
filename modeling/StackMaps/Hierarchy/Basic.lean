import StackMaps.Descriptor.Basic

/-!
# Class hierarchies

A hierarchy knows the direct supertypes of finitely many classes and answers
which classes descend from which. The known classes may form cycles, so the
search up the supertypes marks them and visits every one of them at most once.
-/

namespace StackMaps

/-- The direct supertypes of a class or interface. -/
structure ClassRecord where
  superclass : Option BinaryName
  interfaces : List BinaryName
  isInterface : Bool
  deriving DecidableEq

/-- The superclass, if there is one, with the interfaces behind it. -/
def ClassRecord.supertypes (record : ClassRecord) : List BinaryName :=
  record.superclass.toList ++ record.interfaces

/-- A search: the elements that are not marked yet, and the marked ones that wait to be
visited, the next one first. -/
structure Search (α : Type) where
  unmarked : List α
  pending : List α

namespace Search

variable {α : Type} [DecidableEq α]

/-- Begin at an element, which is marked. Only the given ones can be marked later. -/
def start (elements : List α) (first : α) : Search α :=
  ⟨elements.filter (· ≠ first), [first]⟩

/-- Mark an element and let it wait, unless it has been marked before. -/
def push (search : Search α) (element : α) : Search α :=
  if element ∈ search.unmarked then
    ⟨search.unmarked.filter (· ≠ element), element :: search.pending⟩
  else search

/-- The number of visits that are left at most. -/
def size (search : Search α) : Nat := search.unmarked.length + search.pending.length

/-- An element that begins to wait is no longer unmarked. -/
theorem size_push_le (search : Search α) (element : α) :
    (search.push element).size ≤ search.size := by
  unfold push
  split
  next isUnmarked =>
      have less : (search.unmarked.filter (· ≠ element)).length < search.unmarked.length :=
        List.length_filter_lt_length_iff_exists.mpr ⟨element, isUnmarked, by simp⟩
      simp only [size, List.length_cons]
      omega
  next => exact Nat.le_refl _

theorem size_foldl_push_le (elements : List α) (search : Search α) :
    (elements.foldl push search).size ≤ search.size := by
  induction elements generalizing search with
  | nil => exact Nat.le_refl _
  | cons element rest hypothesis =>
      exact Nat.le_trans (hypothesis (search.push element)) (search.size_push_le element)

end Search

/-- Can `goal` be reached from a pending element by following `next`? What follows an
element is marked when it begins to wait, so nothing waits twice. -/
def searchUp {α : Type} [DecidableEq α] (next : α → List α) (goal : α) : Search α → Bool
  | ⟨_, []⟩ => false
  | ⟨unmarked, current :: rest⟩ =>
      if current = goal then true
      else searchUp next goal ((next current).foldl Search.push ⟨unmarked, rest⟩)
termination_by search => search.size
decreasing_by
  exact Nat.lt_of_le_of_lt (Search.size_foldl_push_le _ _) (Nat.lt_succ_self _)

/-- What the analysis of a body asks about classes. -/
structure Hierarchy where
  /-- All classes that are known, and maybe more. -/
  classes : List BinaryName
  /-- The direct supertypes of a class, if it is known. -/
  lookup : BinaryName → Option ClassRecord
  /-- Does the first class descend from the second, or are they the same? -/
  isSubclass : BinaryName → BinaryName → Bool
  /-- Every class with supertypes is listed. -/
  mem_classes : ∀ name record, lookup name = some record → name ∈ classes

namespace Hierarchy

/-- The direct supertypes of a class. An unknown class has none. -/
def supertypes (lookup : BinaryName → Option ClassRecord) (name : BinaryName) :
    List BinaryName :=
  match lookup name with
  | some record => record.supertypes
  | none => []

/-- The hierarchy of some classes, with the search up all supertypes. -/
def ofLookup
    (classes : List BinaryName)
    (lookup : BinaryName → Option ClassRecord)
    (mem_classes : ∀ name record, lookup name = some record → name ∈ classes) :
    Hierarchy where
  classes := classes
  lookup := lookup
  isSubclass sub super :=
    searchUp (supertypes lookup) super (.start (classes.flatMap (supertypes lookup)) sub)
  mem_classes := mem_classes

end Hierarchy

end StackMaps
