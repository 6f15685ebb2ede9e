import StackMaps.Proofs.Slots.Renaming

/-!
# Backed slots

Slots are backed by others if every uninitialized object in them lies in the same place
among the others, too. A merge of known lists of the same length is backed by both of
them. So an object with a serial number can be told for every uninitialized object in
the backed slots, as soon as there is one for those that back them.
-/

namespace StackMaps

/-- Every uninitialized object in some slots lies in the same place among others. -/
def Backed (slots others : List Slot) : Prop :=
  ∀ (index origin : Nat), slots[index]? = some (some (.uninitialized origin)) →
    others[index]? = some (some (.uninitialized origin))

theorem Backed.refl (slots : List Slot) : Backed slots slots :=
  fun _ _ found => found

theorem Backed.trans
    {slots middle others : List Slot}
    (first : Backed slots middle)
    (second : Backed middle others) :
    Backed slots others :=
  fun index origin found => second index origin (first index origin found)

/-- Slots without uninitialized objects are backed by all others. -/
theorem backed_of_forall_ne
    {slots : List Slot}
    (plain : ∀ slot ∈ slots, ∀ origin, slot ≠ some (.uninitialized origin))
    (others : List Slot) :
    Backed slots others :=
  fun _ origin found => absurd rfl (plain _ (List.mem_of_getElem? found) origin)

section Merges

variable {hierarchy : Hierarchy} {widen : Bool} {existing incoming : List Slot}

/-- A merge adds no uninitialized object to known slots, if no slots are added. -/
theorem backed_mergeSlots_existing
    (known : ∀ slot ∈ existing, slot ≠ none)
    (le : incoming.length ≤ existing.length) :
    Backed (hierarchy.mergeSlots widen existing incoming) existing :=
  fun _ _ found => (Hierarchy.eq_of_getElem?_mergeSlots known le (by simp) (by simp) found).1

/-- A merge keeps no uninitialized object of known slots against another known slot. -/
theorem backed_mergeSlots_incoming
    (known : ∀ slot ∈ existing, slot ≠ none)
    (knownToo : ∀ slot ∈ incoming, slot ≠ none)
    (length_eq : incoming.length = existing.length) :
    Backed (hierarchy.mergeSlots widen existing incoming) incoming := by
  intro index origin found
  obtain ⟨before, unknown | same⟩ := Hierarchy.eq_of_getElem?_mergeSlots known
    (Nat.le_of_eq length_eq) (by simp) (by simp) found
  · have inside : index < incoming.length :=
      length_eq ▸ (List.getElem?_eq_some_iff.mp before).1
    rw [List.getElem?_eq_getElem inside] at unknown
    exact absurd unknown (knownToo _ (List.getElem_mem inside))
  · exact same

end Merges

namespace SlotState

/-- The slots of a state are backed by those of another one, those on the stack from the
bottom. -/
structure BackedBy (state other : SlotState) : Prop where
  locals : Backed state.locals other.locals
  stack : Backed state.stack.slots.reverse other.stack.slots.reverse

variable {state middle other : SlotState} {origin : Nat}

theorem BackedBy.refl (state : SlotState) : state.BackedBy state :=
  ⟨Backed.refl _, Backed.refl _⟩

theorem BackedBy.trans
    (first : state.BackedBy middle)
    (second : middle.BackedBy other) :
    state.BackedBy other :=
  ⟨first.locals.trans second.locals, first.stack.trans second.stack⟩

/-- What a backed state mentions is mentioned by the state that backs it. -/
theorem BackedBy.mentions
    (backed : state.BackedBy other)
    (mentions : state.Mentions origin) :
    other.Mentions origin := by
  rcases mentions with inLocals | onStack
  · obtain ⟨index, found⟩ := List.mem_iff_getElem?.mp inLocals
    exact Or.inl (List.mem_of_getElem? (backed.locals index origin found))
  · obtain ⟨index, found⟩ := List.mem_iff_getElem?.mp (List.mem_reverse.mpr onStack)
    exact Or.inr (List.mem_reverse.mp (List.mem_of_getElem? (backed.stack index origin found)))

end SlotState

end StackMaps
