import StackMaps.Proofs.Hierarchy.Order
import StackMaps.Slots.Join

/-!
# The order of slots

A slot is below another one if it adds nothing to it when joined in. Over an
orderly hierarchy this is transitive, and a join is above both of its parts,
widened or not. Lists of slots are compared slot by slot, where a missing slot is
below every other one.
-/

namespace StackMaps
namespace Hierarchy

variable (hierarchy : Hierarchy)

/-- A slot adds nothing to another one. -/
def SlotLe (lower upper : Slot) : Prop :=
  hierarchy.join upper lower = upper

/-- The slots of a list add nothing to those of another one, which is at least as
long. -/
def SlotsLe : List Slot → List Slot → Prop
  | [], _ => True
  | _ :: _, [] => False
  | lower :: lowers, upper :: uppers => hierarchy.SlotLe lower upper ∧ SlotsLe lowers uppers

/-- The slots of a stack add nothing to those of another one, from the bottom. -/
def StackLe (lower upper : Stack) : Prop :=
  hierarchy.SlotsLe lower.slots.reverse upper.slots.reverse

variable {hierarchy}

/-! ## Types -/

section Types

theorem joinType_self (type : SlotType) : hierarchy.joinType type type = type :=
  if_pos rfl

theorem joinType_top (type : SlotType) : hierarchy.joinType .top type = .top := by
  unfold joinType
  split
  · rfl
  · rfl

/-- A join that is neither `top` nor an object is the join of a type with itself. -/
theorem eq_of_joinType_eq
    {first second type : SlotType}
    (notTop : type ≠ .top)
    (notObject : ∀ operand, type ≠ .object operand)
    (joined : hierarchy.joinType first second = type) :
    first = type ∧ second = type := by
  unfold joinType at joined
  split at joined
  next same => exact ⟨joined, same ▸ joined⟩
  next =>
      split at joined
      · exact absurd joined.symm (notObject _)
      · exact absurd joined.symm (notObject _)
      · exact absurd joined.symm (notObject _)
      · exact absurd joined.symm notTop

/-- A type adds nothing to itself and to `top`, and among the types of references it
adds nothing if it is assignable. -/
theorem joinType_eq_left_iff {upper lower : SlotType} :
    hierarchy.joinType upper lower = upper ↔
      upper = lower ∨ upper = .top ∨ ∃ type, upper = .object type ∧
        (lower = .null ∨ ∃ other, lower = .object other ∧
          hierarchy.isAssignable type other = true) := by
  unfold joinType
  by_cases same : upper = lower
  · simp [same]
  · rw [if_neg same]
    cases upper <;> cases lower <;>
      simp_all [commonSupertype_eq_left_iff]

theorem Orderly.joinType_trans
    (orderly : hierarchy.Orderly)
    {lower middle upper : SlotType}
    (below : hierarchy.joinType middle lower = middle)
    (above : hierarchy.joinType upper middle = upper) :
    hierarchy.joinType upper lower = upper := by
  rw [joinType_eq_left_iff] at below above ⊢
  rcases above with rfl | rfl | ⟨type, rfl, rfl | ⟨other, rfl, assignable⟩⟩
  · exact below
  · exact Or.inr (Or.inl rfl)
  · rcases below with rfl | absurd_ | ⟨_, absurd_, _⟩
    · exact Or.inr (Or.inr ⟨type, rfl, Or.inl rfl⟩)
    · cases absurd_
    · cases absurd_
  · rcases below with rfl | absurd_ | ⟨_, same, rfl | ⟨third, rfl, below⟩⟩
    · exact Or.inr (Or.inr ⟨type, rfl, Or.inr ⟨other, rfl, assignable⟩⟩)
    · cases absurd_
    · exact Or.inr (Or.inr ⟨type, rfl, Or.inl rfl⟩)
    · cases same
      exact Or.inr (Or.inr
        ⟨type, rfl, Or.inr ⟨third, rfl, orderly.isAssignable_trans below assignable⟩⟩)

/-- The join of two types is above both of them. -/
theorem OrderlyClasses.joinType_spec
    (orderly : hierarchy.OrderlyClasses)
    (first second : SlotType) :
    hierarchy.joinType (hierarchy.joinType first second) first =
        hierarchy.joinType first second ∧
      hierarchy.joinType (hierarchy.joinType first second) second =
        hierarchy.joinType first second := by
  by_cases same : first = second
  · subst same
    simp [joinType_self]
  · obtain ⟨type, type_eq⟩ : ∃ type, hierarchy.joinType first second = type := ⟨_, rfl⟩
    rw [type_eq]
    simp only [joinType_eq_left_iff]
    unfold joinType at type_eq
    rw [if_neg same] at type_eq
    split at type_eq
    next other =>
        subst type_eq
        exact ⟨Or.inr (Or.inr ⟨other, rfl, Or.inl rfl⟩), Or.inl rfl⟩
    next other =>
        subst type_eq
        exact ⟨Or.inl rfl, Or.inr (Or.inr ⟨other, rfl, Or.inl rfl⟩)⟩
    next firstType secondType =>
        subst type_eq
        obtain ⟨below, otherBelow⟩ := orderly.isAssignable_commonSupertype firstType secondType
        exact ⟨Or.inr (Or.inr ⟨_, rfl, Or.inr ⟨firstType, rfl, below⟩⟩),
          Or.inr (Or.inr ⟨_, rfl, Or.inr ⟨secondType, rfl, otherBelow⟩⟩)⟩
    next =>
        subst type_eq
        exact ⟨Or.inr (Or.inl rfl), Or.inr (Or.inl rfl)⟩

end Types

/-! ## Single slots -/

section Slots

@[simp] theorem join_none (slot : Slot) : hierarchy.join slot none = slot := by
  cases slot <;> rfl

theorem SlotLe.refl (slot : Slot) : hierarchy.SlotLe slot slot := by
  cases slot with
  | none => rfl
  | some type => exact congrArg some (joinType_self type)

theorem none_slotLe (slot : Slot) : hierarchy.SlotLe none slot := join_none slot

theorem slotLe_top (slot : Slot) : hierarchy.SlotLe slot (some .top) := by
  cases slot with
  | none => rfl
  | some type => exact congrArg some (joinType_top type)

theorem some_slotLe_some_iff {lower upper : SlotType} :
    hierarchy.SlotLe (some lower) (some upper) ↔ hierarchy.joinType upper lower = upper :=
  Option.some_inj

theorem slotLe_none_iff {slot : Slot} : hierarchy.SlotLe slot none ↔ slot = none := Iff.rfl

/-- What adds nothing to a slot: an unknown slot, the slot itself, everything to `top`, and
null and the assignable types to an object. -/
theorem slotLe_iff {lower upper : Slot} :
    hierarchy.SlotLe lower upper ↔
      lower = none ∨ lower = upper ∨ upper = some .top ∨
        ∃ type, upper = some (.object type) ∧
          (lower = some .null ∨ ∃ other, lower = some (.object other) ∧
            hierarchy.isAssignable type other = true) := by
  cases lower with
  | none => simp [none_slotLe]
  | some lower =>
      cases upper with
      | none => simp [slotLe_none_iff]
      | some upper =>
          rw [some_slotLe_some_iff, joinType_eq_left_iff, @eq_comm _ upper lower]
          simp

theorem null_slotLe_object (type : RefType) :
    hierarchy.SlotLe (some .null) (some (.object type)) :=
  slotLe_iff.mpr (Or.inr (Or.inr (Or.inr ⟨type, rfl, Or.inl rfl⟩)))

theorem object_slotLe_object
    {lower upper : RefType}
    (assignable : hierarchy.isAssignable upper lower = true) :
    hierarchy.SlotLe (some (.object lower)) (some (.object upper)) :=
  slotLe_iff.mpr (Or.inr (Or.inr (Or.inr ⟨upper, rfl, Or.inr ⟨lower, rfl, assignable⟩⟩)))

theorem top_slotLe_iff {slot : Slot} :
    hierarchy.SlotLe (some .top) slot ↔ slot = some .top := by
  rw [slotLe_iff]
  constructor
  · rintro (absent | same | isTop | ⟨_, _, isNull | ⟨_, isObject, _⟩⟩)
    · cases absent
    · exact same.symm
    · exact isTop
    · cases isNull
    · cases isObject
  · exact fun isTop => Or.inr (Or.inr (Or.inl isTop))

/-- Merging changes nothing exactly if the incoming slot adds nothing. -/
theorem mergeSlot_eq_self_iff {widen : Bool} {existing incoming : Slot} :
    hierarchy.mergeSlot widen existing incoming = existing ↔
      hierarchy.SlotLe incoming existing := by
  unfold mergeSlot SlotLe
  dsimp only
  by_cases same : hierarchy.join existing incoming = existing
  · simp [same]
  · rw [if_neg same]
    refine iff_of_false ?_ same
    cases widen with
    | false => simpa using same
    | true =>
        intro isTop
        rw [if_pos rfl] at isTop
        exact same (isTop ▸ slotLe_top incoming)

theorem top_mergeSlot (widen : Bool) (slot : Slot) :
    hierarchy.mergeSlot widen (some .top) slot = some .top :=
  mergeSlot_eq_self_iff.mpr (slotLe_top slot)

theorem join_top (slot : Slot) : hierarchy.join slot (some .top) = some .top := by
  cases slot with
  | none => rfl
  | some type => cases type <;> rfl

theorem mergeSlot_top (widen : Bool) (slot : Slot) :
    hierarchy.mergeSlot widen slot (some .top) = some .top := by
  unfold mergeSlot
  rw [join_top]
  dsimp only
  split
  next same => exact same.symm
  next =>
      split
      · rfl
      · rfl

/-- A merge never makes up a type other than `top` and objects: both slots had it, or one
of them where nothing was known of the other. -/
theorem eq_of_mergeSlot_eq
    {widen : Bool}
    {existing incoming : Slot}
    {type : SlotType}
    (notTop : type ≠ .top)
    (notObject : ∀ operand, type ≠ .object operand)
    (merged : hierarchy.mergeSlot widen existing incoming = some type) :
    existing = some type ∧ (incoming = none ∨ incoming = some type) ∨
      existing = none ∧ incoming = some type := by
  have joined : hierarchy.join existing incoming = some type := by
    unfold mergeSlot at merged
    dsimp only at merged
    split at merged
    next same => exact same.trans merged
    next =>
        split at merged
        · exact absurd (Option.some.inj merged).symm notTop
        · exact merged
  cases existing with
  | none => exact Or.inr ⟨rfl, joined⟩
  | some first =>
      cases incoming with
      | none => exact Or.inl ⟨joined, Or.inl rfl⟩
      | some second =>
          have both := eq_of_joinType_eq notTop notObject (Option.some.inj joined)
          exact Or.inl ⟨congrArg some both.1, Or.inr (congrArg some both.2)⟩

/-- The join of two slots is above both of them. -/
theorem OrderlyClasses.slotLe_join
    (orderly : hierarchy.OrderlyClasses)
    (first second : Slot) :
    hierarchy.SlotLe first (hierarchy.join first second) ∧
      hierarchy.SlotLe second (hierarchy.join first second) := by
  cases first with
  | none => exact ⟨none_slotLe _, SlotLe.refl second⟩
  | some first =>
      cases second with
      | none => exact ⟨SlotLe.refl _, none_slotLe _⟩
      | some second =>
          exact ⟨some_slotLe_some_iff.mpr (orderly.joinType_spec first second).1,
            some_slotLe_some_iff.mpr (orderly.joinType_spec first second).2⟩

variable (orderly : hierarchy.Orderly)

include orderly

theorem Orderly.slotLe_trans
    {lower middle upper : Slot}
    (below : hierarchy.SlotLe lower middle)
    (above : hierarchy.SlotLe middle upper) :
    hierarchy.SlotLe lower upper := by
  cases lower with
  | none => exact none_slotLe upper
  | some lower =>
      cases middle with
      | none => exact absurd (slotLe_none_iff.mp below) (by simp)
      | some middle =>
          cases upper with
          | none => exact absurd (slotLe_none_iff.mp above) (by simp)
          | some upper =>
              rw [some_slotLe_some_iff] at below above ⊢
              exact orderly.joinType_trans below above

/-- A merged slot is above both of its parts, widened or not. -/
theorem Orderly.slotLe_mergeSlot (widen : Bool) (existing incoming : Slot) :
    hierarchy.SlotLe existing (hierarchy.mergeSlot widen existing incoming) ∧
      hierarchy.SlotLe incoming (hierarchy.mergeSlot widen existing incoming) := by
  unfold mergeSlot
  dsimp only
  split
  next same => exact ⟨SlotLe.refl existing, same⟩
  next =>
      split
      · exact ⟨slotLe_top existing, slotLe_top incoming⟩
      · exact orderly.orderlyClasses.slotLe_join existing incoming

end Slots

/-! ## Lists and stacks -/

section Lists

variable {widen : Bool}

@[simp] theorem mergeSlots_nil (existing : List Slot) :
    hierarchy.mergeSlots widen existing [] = existing := by
  simp [mergeSlots]

theorem nil_mergeSlots (incoming : List Slot) :
    hierarchy.mergeSlots widen [] incoming = incoming.map (hierarchy.mergeSlot widen none) := by
  induction incoming with
  | nil => simp
  | cons slot rest hypothesis =>
      simpa [mergeSlots, List.replicate_succ] using hypothesis

/-- Lists are merged slot by slot. -/
theorem cons_mergeSlots_cons (slot other : Slot) (existing incoming : List Slot) :
    hierarchy.mergeSlots widen (slot :: existing) (other :: incoming) =
      hierarchy.mergeSlot widen slot other :: hierarchy.mergeSlots widen existing incoming := by
  simp [mergeSlots]

/-- What lies at an index after a merge. -/
theorem getElem?_mergeSlots (existing incoming : List Slot) (index : Nat) :
    (hierarchy.mergeSlots widen existing incoming)[index]? =
      match existing[index]?, incoming[index]? with
      | known, none => known
      | known, some slot => some (hierarchy.mergeSlot widen known.join slot) := by
  induction incoming generalizing existing index with
  | nil => simp
  | cons slot rest hypothesis =>
      cases existing with
      | nil =>
          rw [nil_mergeSlots, List.getElem?_map]
          cases (slot :: rest)[index]? <;> rfl
      | cons known existing =>
          rw [cons_mergeSlots_cons]
          cases index with
          | zero => rfl
          | succ index => exact hypothesis existing index

/-- Where all existing slots are known and none is added, such a type was there before the
merge, and so it was in the incoming slot unless nothing is known of this one. -/
theorem eq_of_getElem?_mergeSlots
    {existing incoming : List Slot}
    (known : ∀ slot ∈ existing, slot ≠ none)
    (le : incoming.length ≤ existing.length)
    {type : SlotType}
    (notTop : type ≠ .top)
    (notObject : ∀ operand, type ≠ .object operand)
    {index : Nat}
    (merged : (hierarchy.mergeSlots widen existing incoming)[index]? = some (some type)) :
    existing[index]? = some (some type) ∧
      ((incoming[index]?).join = none ∨ incoming[index]? = some (some type)) := by
  rw [getElem?_mergeSlots] at merged
  cases incoming_eq : incoming[index]? with
  | none =>
      rw [incoming_eq] at merged
      exact ⟨merged, Or.inl rfl⟩
  | some slot =>
      rw [incoming_eq] at merged
      obtain ⟨before, before_eq⟩ : ∃ before, existing[index]? = some before := by
        have inside := (List.getElem?_eq_some_iff.mp incoming_eq).1
        exact ⟨_, List.getElem?_eq_getElem (Nat.lt_of_lt_of_le inside le)⟩
      rw [before_eq] at merged ⊢
      rcases eq_of_mergeSlot_eq notTop notObject (Option.some.inj merged) with
        ⟨same, rfl | rfl⟩ | ⟨absent, _⟩
      · exact ⟨congrArg some same, Or.inl rfl⟩
      · exact ⟨congrArg some same, Or.inr rfl⟩
      · exact absurd absent (known before (List.mem_of_getElem? before_eq))

theorem length_mergeSlots (existing incoming : List Slot) :
    (hierarchy.mergeSlots widen existing incoming).length =
      max existing.length incoming.length := by
  simp only [mergeSlots, List.length_append, List.length_zipWith, List.length_replicate,
    List.length_drop]
  omega

@[simp] theorem nil_slotsLe (slots : List Slot) : hierarchy.SlotsLe [] slots := by
  simp [SlotsLe]

theorem cons_slotsLe_cons_iff {lower upper : Slot} {lowers uppers : List Slot} :
    hierarchy.SlotsLe (lower :: lowers) (upper :: uppers) ↔
      hierarchy.SlotLe lower upper ∧ hierarchy.SlotsLe lowers uppers := Iff.rfl

theorem SlotsLe.refl (slots : List Slot) : hierarchy.SlotsLe slots slots := by
  induction slots with
  | nil => exact nil_slotsLe []
  | cons slot rest hypothesis => exact ⟨SlotLe.refl slot, hypothesis⟩

/-- Merging changes nothing exactly if the incoming slots add nothing. -/
theorem mergeSlots_eq_self_iff {existing incoming : List Slot} :
    hierarchy.mergeSlots widen existing incoming = existing ↔
      hierarchy.SlotsLe incoming existing := by
  induction incoming generalizing existing with
  | nil => simp
  | cons slot rest hypothesis =>
      cases existing with
      | nil => simp [nil_mergeSlots, SlotsLe]
      | cons known existing =>
          rw [cons_mergeSlots_cons, List.cons.injEq, mergeSlot_eq_self_iff, hypothesis,
            cons_slotsLe_cons_iff]

variable (orderly : hierarchy.Orderly)

include orderly

theorem Orderly.slotsLe_trans
    {lowers middles uppers : List Slot}
    (below : hierarchy.SlotsLe lowers middles)
    (above : hierarchy.SlotsLe middles uppers) :
    hierarchy.SlotsLe lowers uppers := by
  induction lowers generalizing middles uppers with
  | nil => exact nil_slotsLe uppers
  | cons lower lowers hypothesis =>
      cases middles with
      | nil => exact below.elim
      | cons middle middles =>
          cases uppers with
          | nil => exact above.elim
          | cons upper uppers =>
              exact ⟨orderly.slotLe_trans below.1 above.1, hypothesis below.2 above.2⟩

/-- Merged lists are above both of their parts, widened or not. -/
theorem Orderly.slotsLe_mergeSlots (widen : Bool) (existing incoming : List Slot) :
    hierarchy.SlotsLe existing (hierarchy.mergeSlots widen existing incoming) ∧
      hierarchy.SlotsLe incoming (hierarchy.mergeSlots widen existing incoming) := by
  induction incoming generalizing existing with
  | nil => simp [SlotsLe.refl]
  | cons slot rest hypothesis =>
      cases existing with
      | nil =>
          rw [nil_mergeSlots]
          have tail := (hypothesis []).2
          rw [nil_mergeSlots] at tail
          exact ⟨nil_slotsLe _, (orderly.slotLe_mergeSlot widen none slot).2, tail⟩
      | cons known existing =>
          rw [cons_mergeSlots_cons]
          obtain ⟨knownLe, slotLe⟩ := orderly.slotLe_mergeSlot widen known slot
          exact ⟨⟨knownLe, (hypothesis existing).1⟩, slotLe, (hypothesis existing).2⟩

end Lists

section Stacks

variable {widen : Bool}

/-- Merging a stack changes nothing exactly if its slots add nothing. -/
theorem mergeStack_eq_self_iff {existing incoming : Stack} :
    hierarchy.mergeStack widen existing incoming = existing ↔
      hierarchy.StackLe incoming existing := by
  rw [StackLe, ← @mergeSlots_eq_self_iff hierarchy widen, mergeStack]
  constructor
  · intro same
    have slots_eq := congrArg (fun stack => stack.slots.reverse) same
    simpa using slots_eq
  · intro same
    apply Stack.ext
    simp [same]

theorem slots_mergeStack (existing incoming : Stack) :
    (hierarchy.mergeStack widen existing incoming).slots.reverse =
      hierarchy.mergeSlots widen existing.slots.reverse incoming.slots.reverse := by
  simp [mergeStack]

theorem depth_mergeStack (existing incoming : Stack) :
    (hierarchy.mergeStack widen existing incoming).depth =
      max existing.depth incoming.depth := by
  rw [Stack.depth_eq, ← List.length_reverse, slots_mergeStack, length_mergeSlots]
  simp [Stack.depth_eq]

variable (orderly : hierarchy.Orderly)

include orderly

theorem Orderly.stackLe_trans
    {lower middle upper : Stack}
    (below : hierarchy.StackLe lower middle)
    (above : hierarchy.StackLe middle upper) :
    hierarchy.StackLe lower upper :=
  orderly.slotsLe_trans below above

/-- Merged stacks are above both of their parts, widened or not. -/
theorem Orderly.stackLe_mergeStack (widen : Bool) (existing incoming : Stack) :
    hierarchy.StackLe existing (hierarchy.mergeStack widen existing incoming) ∧
      hierarchy.StackLe incoming (hierarchy.mergeStack widen existing incoming) := by
  simp only [StackLe, slots_mergeStack]
  exact orderly.slotsLe_mergeSlots widen _ _

end Stacks

end Hierarchy
end StackMaps
