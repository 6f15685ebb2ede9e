import StackMaps.Proofs.Hierarchy.Ancestors
import StackMaps.Proofs.Slots.Origins

/-!
# Joins of class types

Arrays and interfaces apart, the slots form a semilattice over a hierarchy without cycles: two
classes meet in their closest common ancestor, from whichever of them the walk starts. So it
does not matter in which order slots are joined.
-/

namespace StackMaps
namespace Hierarchy

/-- The slot is unknown, or its type is neither an array nor an interface. -/
def IsClassSlot (lookup : BinaryName → Option ClassRecord) : Slot → Prop
  | some (.object (.object name)) => ¬IsInterface lookup name
  | some (.object _) => False
  | _ => True

/-- A faithful hierarchy in which the superclasses form trees. -/
structure IsForest (hierarchy : Hierarchy) : Prop where
  faithful : hierarchy.IsFaithful
  layered : Layered hierarchy.lookup
  acyclic : Acyclic hierarchy.lookup

variable {hierarchy : Hierarchy}

/-! ## Classes -/

/-- The walk up the superclasses comes to no interface. -/
theorem Layered.not_isInterface_superclassFrom
    (layered : Layered hierarchy.lookup)
    (other : BinaryName)
    (unvisited : List BinaryName)
    {current : BinaryName}
    (isClass : ¬IsInterface hierarchy.lookup current) :
    ¬IsInterface hierarchy.lookup (hierarchy.superclassFrom other unvisited current) := by
  fun_induction superclassFrom hierarchy other unvisited current with
  | case1 unvisited current suits => exact isClass
  | case2 => exact not_isInterface_object hierarchy.lookup
  | case3 unvisited current unsuited superclass superclass_eq present hypothesis =>
      obtain ⟨record, found, isSuperclass⟩ := Option.bind_eq_some_iff.mp superclass_eq
      exact hypothesis (layered.not_superclass current record found superclass isSuperclass)
  | case4 => exact not_isInterface_object hierarchy.lookup

theorem exists_name_of_isClassSlot
    {lookup : BinaryName → Option ClassRecord}
    {type : RefType}
    (isClass : IsClassSlot lookup (some (.object type))) :
    ∃ name, type = .object name ∧ ¬IsInterface lookup name := by
  cases type with
  | object name => exact ⟨name, rfl, isClass⟩
  | objectArray depth element => exact isClass.elim
  | primitiveArray depth element => exact isClass.elim

/-- A common supertype of classes is a class. -/
theorem Layered.merges_isClassSlot (layered : Layered hierarchy.lookup) :
    hierarchy.Merges (IsClassSlot hierarchy.lookup) where
  top := trivial
  object first second firstClass secondClass := by
    obtain ⟨name, rfl, isClass⟩ := exists_name_of_isClassSlot firstClass
    obtain ⟨other, rfl, _⟩ := exists_name_of_isClassSlot secondClass
    unfold commonSupertype
    split
    · exact firstClass
    · split
      · exact secondClass
      · exact layered.not_isInterface_superclassFrom other _ isClass

/-- What adds nothing to a class slot. -/
theorem slotLe_cases_of_isClassSlot
    {lower upper : Slot}
    (lowerClass : IsClassSlot hierarchy.lookup lower)
    (upperClass : IsClassSlot hierarchy.lookup upper)
    (below : hierarchy.SlotLe lower upper) :
    lower = none ∨ lower = upper ∨ upper = some .top ∨
      ∃ name, upper = some (.object (.object name)) ∧ ¬IsInterface hierarchy.lookup name ∧
        (lower = some .null ∨ ∃ other, lower = some (.object (.object other)) ∧
          hierarchy.classAssignable other name = true) := by
  refine (slotLe_iff.mp below).imp_right (Or.imp_right (Or.imp_right ?_))
  rintro ⟨type, rfl, under⟩
  obtain ⟨name, rfl, isClass⟩ := exists_name_of_isClassSlot upperClass
  refine ⟨name, rfl, isClass, under.imp_right ?_⟩
  rintro ⟨otherType, rfl, assignable⟩
  obtain ⟨other, rfl, _⟩ := exists_name_of_isClassSlot lowerClass
  exact ⟨other, rfl, assignable⟩

section Forest

variable (forest : hierarchy.IsForest)

include forest

theorem IsForest.orderlyClasses : hierarchy.OrderlyClasses :=
  forest.faithful.orderlyClasses forest.layered.supertypes_object

theorem IsForest.classAssignable_antisymm
    {first second : BinaryName}
    (below : hierarchy.classAssignable first second = true)
    (above : hierarchy.classAssignable second first = true) :
    first = second := by
  have object_eq := forest.layered.supertypes_object
  rcases (forest.faithful first second).mp below with rfl | up
  · rcases (forest.faithful .object first).mp above with same | down
    · exact same
    · exact eq_object_of_leads object_eq down
  · rcases (forest.faithful second first).mp above with rfl | down
    · exact (eq_object_of_leads object_eq up).symm
    · rcases Relation.reflTransGen_iff_eq_or_transGen.mp up with same | climbs
      · exact same.symm
      · exact absurd (climbs.trans_left down) (forest.acyclic first)

/-- Two classes meet in the class at which the walk from the first one ends, also if one of
them is above the other. -/
theorem IsForest.joinType_classes
    {first second : BinaryName}
    (secondClass : ¬IsInterface hierarchy.lookup second) :
    hierarchy.joinType (.object (.object first)) (.object (.object second)) =
      .object (.object (hierarchy.commonSuperclass first second)) := by
  have orderly := forest.orderlyClasses
  have upper := orderly.commonSuperclass_spec first second
  have walk : hierarchy.classAssignable second first = true →
      hierarchy.commonSuperclass first second = first := by
    intro above
    rw [commonSuperclass, superclassFrom, if_pos above]
  unfold joinType
  split
  next same =>
      cases same
      rw [walk (orderly.refl first)]
  next =>
      simp only [commonSupertype]
      split
      next above => rw [walk above]
      next =>
          split
          next below =>
              have least := forest.faithful.classAssignable_commonSuperclass
                forest.layered.toKeepsInterfacesApart secondClass below (orderly.refl second)
              rw [forest.classAssignable_antisymm least upper.2]
          next => rfl

/-! ## Slots -/

theorem IsForest.slotLe_antisymm
    {lower upper : Slot}
    (lowerClass : IsClassSlot hierarchy.lookup lower)
    (upperClass : IsClassSlot hierarchy.lookup upper)
    (below : hierarchy.SlotLe lower upper)
    (above : hierarchy.SlotLe upper lower) :
    lower = upper := by
  rcases slotLe_cases_of_isClassSlot lowerClass upperClass below with
    rfl | same | rfl | ⟨name, rfl, _, isNull | ⟨other, rfl, assignable⟩⟩
  · exact (slotLe_none_iff.mp above).symm
  · exact same
  · exact top_slotLe_iff.mp above
  · subst isNull
    rcases slotLe_iff.mp above with absurd_ | same | absurd_ | ⟨_, absurd_, _⟩
    · cases absurd_
    · exact same.symm
    · cases absurd_
    · cases absurd_
  · rcases slotLe_cases_of_isClassSlot upperClass lowerClass above with
      absurd_ | same | absurd_ | ⟨_, same, _, absurd_ | ⟨_, otherSame, converse⟩⟩
    · cases absurd_
    · exact same.symm
    · cases absurd_
    · cases absurd_
    · cases same
      cases otherSame
      rw [forest.classAssignable_antisymm assignable converse]

theorem IsForest.slotLe_trans
    {lower middle upper : Slot}
    (lowerClass : IsClassSlot hierarchy.lookup lower)
    (middleClass : IsClassSlot hierarchy.lookup middle)
    (upperClass : IsClassSlot hierarchy.lookup upper)
    (below : hierarchy.SlotLe lower middle)
    (above : hierarchy.SlotLe middle upper) :
    hierarchy.SlotLe lower upper := by
  rcases slotLe_cases_of_isClassSlot lowerClass middleClass below with
    rfl | rfl | rfl | ⟨name, rfl, _, under⟩
  · exact none_slotLe upper
  · exact above
  · rw [top_slotLe_iff.mp above]
    exact slotLe_top lower
  · rcases slotLe_cases_of_isClassSlot middleClass upperClass above with
      absurd_ | rfl | rfl | ⟨superName, rfl, _, absurd_ | ⟨_, same, assignable⟩⟩
    · cases absurd_
    · exact below
    · exact slotLe_top lower
    · cases absurd_
    · cases same
      rcases under with rfl | ⟨other, rfl, otherAssignable⟩
      · exact null_slotLe_object _
      · apply object_slotLe_object
        exact forest.orderlyClasses.trans _ _ _ otherAssignable assignable

/-- The join is below every slot above both of its parts. -/
theorem IsForest.join_slotLe
    {first second upper : Slot}
    (firstClass : IsClassSlot hierarchy.lookup first)
    (secondClass : IsClassSlot hierarchy.lookup second)
    (upperClass : IsClassSlot hierarchy.lookup upper)
    (firstLe : hierarchy.SlotLe first upper)
    (secondLe : hierarchy.SlotLe second upper) :
    hierarchy.SlotLe (hierarchy.join first second) upper := by
  rcases slotLe_cases_of_isClassSlot firstClass upperClass firstLe with
    rfl | rfl | rfl | ⟨name, rfl, isClass, under⟩
  · exact secondLe
  · -- The join of the upper slot with the second one is the upper slot again.
    rw [(secondLe : hierarchy.join first second = first)]
    exact SlotLe.refl first
  · exact slotLe_top _
  · have secondUnder : second = none ∨ second = some .null ∨
        ∃ other, second = some (.object (.object other)) ∧
          hierarchy.classAssignable other name = true := by
      rcases slotLe_cases_of_isClassSlot secondClass upperClass secondLe with
        absent | rfl | absurd_ | ⟨_, same, _, otherUnder⟩
      · exact Or.inl absent
      · exact Or.inr (Or.inr ⟨name, rfl, forest.orderlyClasses.refl name⟩)
      · cases absurd_
      · cases same
        exact Or.inr otherUnder
    rcases under with rfl | ⟨first, rfl, firstBelow⟩
    · rcases secondUnder with rfl | rfl | ⟨second, rfl, _⟩
      · exact firstLe
      · exact firstLe
      · exact secondLe
    · rcases secondUnder with rfl | rfl | ⟨second, rfl, secondBelow⟩
      · exact firstLe
      · exact firstLe
      · have least := forest.faithful.classAssignable_commonSuperclass
          forest.layered.toKeepsInterfacesApart isClass firstBelow secondBelow
        rw [join, forest.joinType_classes secondClass]
        exact object_slotLe_object least

end Forest

/-! ## Joins in any order -/

/-- Class slots form a semilattice, in which the unknown slot adds nothing and `top` absorbs
everything, and slots in a list can be joined in any order. -/
structure JoinsInAnyOrder (hierarchy : Hierarchy) : Prop where
  closed : ∀ first second, IsClassSlot hierarchy.lookup first →
    IsClassSlot hierarchy.lookup second →
    IsClassSlot hierarchy.lookup (hierarchy.join first second)
  comm : ∀ first second, IsClassSlot hierarchy.lookup first →
    IsClassSlot hierarchy.lookup second →
    hierarchy.join first second = hierarchy.join second first
  assoc : ∀ first second third, IsClassSlot hierarchy.lookup first →
    IsClassSlot hierarchy.lookup second → IsClassSlot hierarchy.lookup third →
    hierarchy.join (hierarchy.join first second) third =
      hierarchy.join first (hierarchy.join second third)
  idem : ∀ slot, hierarchy.join slot slot = slot
  unknown_left : ∀ slot, hierarchy.join none slot = slot
  unknown_right : ∀ slot, hierarchy.join slot none = slot
  top_left : ∀ slot, hierarchy.join (some .top) slot = some .top
  top_right : ∀ slot, hierarchy.join slot (some .top) = some .top
  perm : ∀ slots others : List Slot, slots.Perm others →
    (∀ slot ∈ slots, IsClassSlot hierarchy.lookup slot) →
    ∀ start, IsClassSlot hierarchy.lookup start →
      slots.foldl hierarchy.join start = others.foldl hierarchy.join start

section Forest

variable (forest : hierarchy.IsForest)

include forest

theorem IsForest.isClassSlot_join
    {first second : Slot}
    (firstClass : IsClassSlot hierarchy.lookup first)
    (secondClass : IsClassSlot hierarchy.lookup second) :
    IsClassSlot hierarchy.lookup (hierarchy.join first second) :=
  holds_join forest.layered.merges_isClassSlot firstClass secondClass

theorem IsForest.join_comm
    {first second : Slot}
    (firstClass : IsClassSlot hierarchy.lookup first)
    (secondClass : IsClassSlot hierarchy.lookup second) :
    hierarchy.join first second = hierarchy.join second first := by
  have joined := forest.isClassSlot_join firstClass secondClass
  have swapped := forest.isClassSlot_join secondClass firstClass
  obtain ⟨firstLe, secondLe⟩ := forest.orderlyClasses.slotLe_join first second
  obtain ⟨secondLeSwapped, firstLeSwapped⟩ := forest.orderlyClasses.slotLe_join second first
  apply forest.slotLe_antisymm joined swapped
  · exact forest.join_slotLe firstClass secondClass swapped firstLeSwapped secondLeSwapped
  · exact forest.join_slotLe secondClass firstClass joined secondLe firstLe

theorem IsForest.join_assoc
    {first second third : Slot}
    (firstClass : IsClassSlot hierarchy.lookup first)
    (secondClass : IsClassSlot hierarchy.lookup second)
    (thirdClass : IsClassSlot hierarchy.lookup third) :
    hierarchy.join (hierarchy.join first second) third =
      hierarchy.join first (hierarchy.join second third) := by
  have front := forest.isClassSlot_join firstClass secondClass
  have back := forest.isClassSlot_join secondClass thirdClass
  have left := forest.isClassSlot_join front thirdClass
  have right := forest.isClassSlot_join firstClass back
  have upper := forest.orderlyClasses.slotLe_join
  apply forest.slotLe_antisymm left right
  · apply forest.join_slotLe front thirdClass right
    · apply forest.join_slotLe firstClass secondClass right (upper first _).1
      exact forest.slotLe_trans secondClass back right (upper second third).1 (upper first _).2
    · exact forest.slotLe_trans thirdClass back right (upper second third).2 (upper first _).2
  · apply forest.join_slotLe firstClass back left
    · exact forest.slotLe_trans firstClass front left (upper first second).1 (upper _ third).1
    · apply forest.join_slotLe secondClass thirdClass left _ (upper _ third).2
      exact forest.slotLe_trans secondClass front left (upper first second).2 (upper _ third).1

/-- Two neighbours can be joined the other way round. -/
theorem IsForest.foldl_join_perm
    {slots others : List Slot}
    (perm : slots.Perm others)
    (classes : ∀ slot ∈ slots, IsClassSlot hierarchy.lookup slot)
    {start : Slot}
    (startClass : IsClassSlot hierarchy.lookup start) :
    slots.foldl hierarchy.join start = others.foldl hierarchy.join start := by
  induction perm generalizing start with
  | nil => rfl
  | cons slot _ hypothesis =>
      obtain ⟨slotClass, restClasses⟩ := List.forall_mem_cons.mp classes
      exact hypothesis restClasses (forest.isClassSlot_join startClass slotClass)
  | swap first second rest =>
      obtain ⟨secondClass, later⟩ := List.forall_mem_cons.mp classes
      obtain ⟨firstClass, _⟩ := List.forall_mem_cons.mp later
      have swapped : hierarchy.join (hierarchy.join start second) first =
          hierarchy.join (hierarchy.join start first) second := by
        calc hierarchy.join (hierarchy.join start second) first
            = hierarchy.join start (hierarchy.join second first) :=
              forest.join_assoc startClass secondClass firstClass
          _ = hierarchy.join start (hierarchy.join first second) := by
              rw [forest.join_comm secondClass firstClass]
          _ = hierarchy.join (hierarchy.join start first) second :=
              (forest.join_assoc startClass firstClass secondClass).symm
      exact congrArg (rest.foldl hierarchy.join) swapped
  | trans perm _ hypothesis laterHypothesis =>
      have middleClasses : ∀ slot ∈ _, IsClassSlot hierarchy.lookup slot :=
        fun slot present => classes slot (perm.mem_iff.mpr present)
      exact (hypothesis classes startClass).trans (laterHypothesis middleClasses startClass)

end Forest

/-- Over a hierarchy without cycles that keeps interfaces apart class slots can be joined in
any order. -/
theorem joinsInAnyOrder_of_isBuilt
    (built : hierarchy.IsBuilt)
    (layered : Layered hierarchy.lookup)
    (acyclic : Acyclic hierarchy.lookup) :
    hierarchy.JoinsInAnyOrder := by
  have forest : hierarchy.IsForest :=
    ⟨built.isFaithful layered.toKeepsInterfacesApart, layered, acyclic⟩
  constructor
  · exact fun _ _ => forest.isClassSlot_join
  · exact fun _ _ => forest.join_comm
  · exact fun _ _ _ => forest.join_assoc
  · exact SlotLe.refl
  · exact fun _ => rfl
  · exact join_none
  · exact slotLe_top
  · exact join_top
  · exact fun _ _ perm classes _ => forest.foldl_join_perm perm classes

/-- Two shapes that can be drawn, below a superclass without a declaration. -/
def sketch : List ClassGraph.Operation := [
  .declare Shapes.circle (some Shapes.shape) [Shapes.drawable] Library.plainClass,
  .declare Shapes.square (some Shapes.shape) [Shapes.drawable] Library.plainClass,
  .declare Shapes.drawable (some .object) [] Library.plainInterface]

/-- The two shapes meet in the unknown superclass, from whichever of them the walk starts. -/
theorem joinsInAnyOrder_of_isBuilt_sketch :
    Layered (ClassGraph.build sketch).hierarchy.lookup ∧
      Acyclic (ClassGraph.build sketch).hierarchy.lookup ∧
      (ClassGraph.build sketch).hierarchy.JoinsInAnyOrder := by
  have apart : KeepsInterfacesApart (ClassGraph.build sketch).hierarchy.lookup :=
    keepsInterfacesApart_of_classes (by decide +kernel) (by decide +kernel) (by decide +kernel)
  have layered : Layered (ClassGraph.build sketch).hierarchy.lookup :=
    layered_of_classes apart (by decide +kernel) (by decide +kernel)
  have acyclic : Acyclic (ClassGraph.build sketch).hierarchy.lookup :=
    acyclic_of_order [.object, Shapes.drawable, Shapes.shape, Shapes.circle, Shapes.square]
      (by decide +kernel)
  exact ⟨layered, acyclic, joinsInAnyOrder_of_isBuilt (.ofGraph sketch) layered acyclic⟩

end Hierarchy
end StackMaps
