import StackMaps.Hierarchy.Supertype
import StackMaps.Hierarchy.Table
import StackMaps.Proofs.Hierarchy.Elements
import StackMaps.Proofs.Hierarchy.Search

/-!
# The order of types

In a hierarchy whose root class has no supertypes, assignability is reflexive and
transitive, cycles among the classes or not, and the common supertype of two types
is one to which both are assignable. What holds of a common supertype over every
hierarchy, however it answers, comes first, and the search of a plain table last.
-/

namespace StackMaps
namespace Hierarchy

/-- The laws of assignability between classes. -/
structure Orderly (hierarchy : Hierarchy) : Prop where
  refl : ∀ name, hierarchy.classAssignable name name = true
  trans : ∀ first second third, hierarchy.classAssignable first second = true →
    hierarchy.classAssignable second third = true → hierarchy.classAssignable first third = true
  array : ∀ first second, first.isArraySupertype = true →
    hierarchy.classAssignable first second = true → second.isArraySupertype = true
  superclass : ∀ name record above, hierarchy.lookup name = some record →
    record.superclass = some above → hierarchy.classAssignable name above = true

/-- The laws of assignability between classes that do without those of arrays. -/
structure OrderlyClasses (hierarchy : Hierarchy) : Prop where
  refl : ∀ name, hierarchy.classAssignable name name = true
  trans : ∀ first second third, hierarchy.classAssignable first second = true →
    hierarchy.classAssignable second third = true → hierarchy.classAssignable first third = true
  superclass : ∀ name record above, hierarchy.lookup name = some record →
    record.superclass = some above → hierarchy.classAssignable name above = true

theorem Orderly.orderlyClasses {hierarchy : Hierarchy} (orderly : hierarchy.Orderly) :
    hierarchy.OrderlyClasses :=
  ⟨orderly.refl, orderly.trans, orderly.superclass⟩

/-- The root class has no supertypes, and the interfaces of arrays have none but the
root class. -/
structure Grounded (lookup : BinaryName → Option ClassRecord) : Prop where
  object_eq : supertypes lookup .object = []
  cloneable : ∀ name ∈ supertypes lookup .cloneable, name = .object
  serializable : ∀ name ∈ supertypes lookup .serializable, name = .object

/-- Assignability between classes is what the supertypes say: a path of them leads to every
class above another one, and everything is below the root class. -/
def IsFaithful (hierarchy : Hierarchy) : Prop :=
  ∀ sub super, hierarchy.classAssignable sub super = true ↔
    super = .object ∨ Leads (supertypes hierarchy.lookup) sub super

theorem mem_supertypes_iff
    {lookup : BinaryName → Option ClassRecord}
    {name above : BinaryName} :
    above ∈ supertypes lookup name ↔
      ∃ record, lookup name = some record ∧ above ∈ record.supertypes := by
  unfold supertypes
  cases lookup name <;> simp

/-- Nothing but the root class is above the root class, if it has no supertypes. -/
theorem eq_object_of_leads
    {lookup : BinaryName → Option ClassRecord}
    (object_eq : supertypes lookup .object = [])
    {name : BinaryName}
    (leads : Leads (supertypes lookup) .object name) :
    name = .object := by
  refine leads.preserves (· = .object) (fun current same above isAbove => ?_) rfl
  rw [same, object_eq] at isAbove
  exact absurd isAbove List.not_mem_nil

/-- The classes of a faithful hierarchy are orderly if the root class has no supertypes. -/
theorem IsFaithful.orderlyClasses
    {hierarchy : Hierarchy}
    (faithful : hierarchy.IsFaithful)
    (object_eq : supertypes hierarchy.lookup .object = []) :
    hierarchy.OrderlyClasses where
  refl _ := (faithful _ _).mpr (Or.inr .refl)
  trans first second third below above := by
    rw [faithful] at below above ⊢
    rcases above with top | above
    · exact Or.inl top
    · rcases below with rfl | below
      · exact Or.inl (eq_object_of_leads object_eq above)
      · exact Or.inr (below.trans above)
  superclass name record above found superclass_eq := by
    refine (faithful name above).mpr (Or.inr (.single ?_))
    have record_eq : supertypes hierarchy.lookup name = record.supertypes := by
      rw [supertypes, found]
    rw [record_eq, ClassRecord.supertypes, superclass_eq]
    exact List.mem_cons_self

section OfLookup

variable {classes : List BinaryName} {lookup : BinaryName → Option ClassRecord}
variable {mem_classes : ∀ name record, lookup name = some record → name ∈ classes}

/-- A class descends from another one if a path of supertypes leads there. -/
theorem isSubclass_ofLookup_iff {sub super : BinaryName} :
    (ofLookup classes lookup mem_classes).isSubclass sub super = true ↔
      Leads (supertypes lookup) sub super := by
  refine searchUp_start_iff fun current above isAbove => ?_
  obtain ⟨record, found, _⟩ := mem_supertypes_iff.mp isAbove
  exact List.mem_flatMap.mpr ⟨current, mem_classes current record found, isAbove⟩

theorem classAssignable_ofLookup_iff {sub super : BinaryName} :
    (ofLookup classes lookup mem_classes).classAssignable sub super = true ↔
      super = .object ∨ Leads (supertypes lookup) sub super := by
  rw [classAssignable, Bool.or_eq_true, beq_iff_eq, isSubclass_ofLookup_iff]

/-- Above the supertypes of arrays there are only such. -/
theorem Grounded.isArraySupertype_of_leads
    (grounded : Grounded lookup)
    {first second : BinaryName}
    (array : first.isArraySupertype = true)
    (leads : Leads (supertypes lookup) first second) :
    second.isArraySupertype = true := by
  refine leads.preserves (·.isArraySupertype = true) (fun current isArray above isAbove => ?_) array
  simp only [BinaryName.isArraySupertype, Bool.or_eq_true, beq_iff_eq] at isArray ⊢
  rcases isArray with (rfl | rfl) | rfl
  · rw [grounded.object_eq] at isAbove
    exact absurd isAbove List.not_mem_nil
  · exact Or.inl (Or.inl (grounded.cloneable above isAbove))
  · exact Or.inl (Or.inl (grounded.serializable above isAbove))

theorem isFaithful_ofLookup : (ofLookup classes lookup mem_classes).IsFaithful :=
  fun _ _ => classAssignable_ofLookup_iff

/-- The classes of a hierarchy with the search up all supertypes are orderly if the root
class has no supertypes. -/
theorem orderlyClasses_ofLookup (object_eq : supertypes lookup .object = []) :
    (ofLookup classes lookup mem_classes).OrderlyClasses :=
  isFaithful_ofLookup.orderlyClasses object_eq

/-- A hierarchy with the search up all supertypes is orderly. -/
theorem Grounded.orderly (grounded : Grounded lookup) :
    (ofLookup classes lookup mem_classes).Orderly where
  refl := (orderlyClasses_ofLookup grounded.object_eq).refl
  trans := (orderlyClasses_ofLookup grounded.object_eq).trans
  array first second array above := by
    rw [classAssignable_ofLookup_iff] at above
    rcases above with rfl | leads
    · rfl
    · exact grounded.isArraySupertype_of_leads array leads
  superclass := (orderlyClasses_ofLookup grounded.object_eq).superclass

end OfLookup

variable {hierarchy : Hierarchy}

/-! ## Over every hierarchy -/

theorem classAssignable_object (name : BinaryName) :
    hierarchy.classAssignable name .object = true := by
  simp [classAssignable]

/-- Every type is assignable to the root class. -/
theorem isAssignable_object (type : RefType) :
    hierarchy.isAssignable (.object .object) type = true := by
  cases type with
  | object name => exact @classAssignable_object hierarchy name
  | objectArray depth element => rfl
  | primitiveArray depth element => rfl

/-- The walk up the superclasses ends above the class for which it looks. -/
theorem classAssignable_superclassFrom
    (other : BinaryName)
    (unvisited : List BinaryName)
    (current : BinaryName) :
    hierarchy.classAssignable other (hierarchy.superclassFrom other unvisited current) = true := by
  fun_induction superclassFrom hierarchy other unvisited current with
  | case1 unvisited current suits => exact suits
  | case2 => exact classAssignable_object other
  | case3 unvisited current unsuited superclass superclass_eq present hypothesis => exact hypothesis
  | case4 => exact classAssignable_object other

/-- The second type is assignable to the common supertype, or is it itself. -/
theorem eq_or_isAssignable_commonSupertype (first second : RefType) :
    hierarchy.commonSupertype first second = second ∨
      hierarchy.isAssignable (hierarchy.commonSupertype first second) second = true := by
  unfold commonSupertype
  split
  next above => exact Or.inr above
  next =>
      split
      · exact Or.inl rfl
      · refine Or.inr ?_
        split
        next depth element otherDepth otherElement _ _ =>
            split
            next same =>
                subst same
                simpa [isAssignable, RefType.isAssignable, commonSuperclass] using
                  classAssignable_superclassFrom otherElement hierarchy.classes element
            next => exact isAssignable_object _
        next name otherName _ _ => exact classAssignable_superclassFrom otherName _ name
        next => exact isAssignable_object _

theorem commonSupertype_of_isAssignable
    {first second : RefType}
    (above : hierarchy.isAssignable first second = true) :
    hierarchy.commonSupertype first second = first := by
  unfold commonSupertype
  exact if_pos above

/-- The common supertype of two different types is the first one exactly if the second is
assignable to it. -/
theorem commonSupertype_eq_left_iff {first second : RefType} (distinct : first ≠ second) :
    hierarchy.commonSupertype first second = first ↔
      hierarchy.isAssignable first second = true := by
  refine ⟨fun same => ?_, commonSupertype_of_isAssignable⟩
  have either := @eq_or_isAssignable_commonSupertype hierarchy first second
  rw [same] at either
  exact either.resolve_left distinct

/-- Elements of assignable arrays are assignable. -/
theorem isAssignable_element
    {array other element otherElement : RefType}
    (assignable : hierarchy.isAssignable array other = true)
    (element_eq : array.element? = some (.ref element))
    (otherElement_eq : other.element? = some (.ref otherElement)) :
    hierarchy.isAssignable element otherElement = true := by
  obtain rfl := RefType.element?_eq_some_iff.mp element_eq
  obtain rfl := RefType.element?_eq_some_iff.mp otherElement_eq
  rwa [isAssignable, RefType.isAssignable_array] at assignable

/-! ## Over orderly hierarchies -/

section OrderlyClasses

variable (orderly : hierarchy.OrderlyClasses)

include orderly

/-- The walk up the superclasses ends above the class at which it starts. -/
theorem OrderlyClasses.classAssignable_superclassFrom_start
    (first other : BinaryName)
    (unvisited : List BinaryName)
    (current : BinaryName)
    (above : hierarchy.classAssignable first current = true) :
    hierarchy.classAssignable first (hierarchy.superclassFrom other unvisited current) = true := by
  fun_induction superclassFrom hierarchy other unvisited current with
  | case1 unvisited current suits => exact above
  | case2 => exact classAssignable_object first
  | case3 unvisited current unsuited superclass superclass_eq present hypothesis =>
      obtain ⟨record, found, above_eq⟩ := Option.bind_eq_some_iff.mp superclass_eq
      exact hypothesis
        (orderly.trans _ _ _ above (orderly.superclass current record superclass found above_eq))
  | case4 => exact classAssignable_object first

theorem OrderlyClasses.commonSuperclass_spec (first second : BinaryName) :
    hierarchy.classAssignable first (hierarchy.commonSuperclass first second) = true ∧
      hierarchy.classAssignable second (hierarchy.commonSuperclass first second) = true :=
  ⟨orderly.classAssignable_superclassFrom_start first second hierarchy.classes first
      (orderly.refl first),
    classAssignable_superclassFrom second hierarchy.classes first⟩

theorem OrderlyClasses.isAssignable_refl (type : RefType) :
    hierarchy.isAssignable type type = true := by
  cases type <;> simp [isAssignable, RefType.isAssignable, orderly.refl]

/-- Both types are assignable to their common supertype. -/
theorem OrderlyClasses.isAssignable_commonSupertype (first second : RefType) :
    hierarchy.isAssignable (hierarchy.commonSupertype first second) first = true ∧
      hierarchy.isAssignable (hierarchy.commonSupertype first second) second = true := by
  unfold commonSupertype
  split
  next above => exact ⟨orderly.isAssignable_refl first, above⟩
  next =>
      split
      next below => exact ⟨below, orderly.isAssignable_refl second⟩
      next =>
          split
          next depth element otherDepth otherElement _ _ =>
              split
              next same =>
                  subst same
                  simpa [isAssignable, RefType.isAssignable] using
                    orderly.commonSuperclass_spec element otherElement
              next => exact ⟨isAssignable_object _, isAssignable_object _⟩
          next name otherName _ _ =>
              simpa [isAssignable, RefType.isAssignable] using
                orderly.commonSuperclass_spec name otherName
          next => exact ⟨isAssignable_object _, isAssignable_object _⟩

end OrderlyClasses

theorem Orderly.isAssignable_trans
    (orderly : hierarchy.Orderly)
    {first second third : RefType}
    (below : hierarchy.isAssignable second first = true)
    (above : hierarchy.isAssignable third second = true) :
    hierarchy.isAssignable third first = true := by
  have trans := orderly.trans
  have array := orderly.array
  cases first <;> cases second <;> cases third <;>
    simp only [isAssignable, RefType.isAssignable] at below above ⊢ <;> grind

/-! ## The preorder of types -/

/-- Assignability is a preorder with the root class on top, and common supertypes are upper
bounds. -/
structure OrdersTypes (hierarchy : Hierarchy) : Prop where
  refl : ∀ type, hierarchy.isAssignable type type = true
  trans : ∀ lower middle upper, hierarchy.isAssignable middle lower = true →
    hierarchy.isAssignable upper middle = true → hierarchy.isAssignable upper lower = true
  top : ∀ type, hierarchy.isAssignable (.object .object) type = true
  left : ∀ first second,
    hierarchy.isAssignable (hierarchy.commonSupertype first second) first = true
  right : ∀ first second,
    hierarchy.isAssignable (hierarchy.commonSupertype first second) second = true

/-- The search up all supertypes orders the types, whatever cycles the classes form and
whichever of them are unknown. -/
theorem ordersTypes_ofLookup
    (classes : List BinaryName)
    (lookup : BinaryName → Option ClassRecord)
    (mem_classes : ∀ name record, lookup name = some record → name ∈ classes)
    (grounded : Grounded lookup) :
    (ofLookup classes lookup mem_classes).OrdersTypes := by
  have orderly : (ofLookup classes lookup mem_classes).Orderly := grounded.orderly
  have upper := orderly.orderlyClasses.isAssignable_commonSupertype
  constructor
  · exact orderly.orderlyClasses.isAssignable_refl
  · intro lower middle upper below above
    exact orderly.isAssignable_trans below above
  · exact isAssignable_object
  · exact fun first second => (upper first second).1
  · exact fun first second => (upper first second).2

/-- Two classes that are each other's superclass, one of them with an interface of arrays. -/
def entwinedTable : ClassTable :=
  ⟨[(.throwable, ⟨some .string, [.serializable], false⟩),
    (.string, ⟨some .throwable, [], false⟩),
    (.serializable, ⟨some .object, [], true⟩)]⟩

/-- The two classes are ordered with their arrays, the primitive arrays and all unknown
classes. -/
theorem ordersTypes_ofLookup_entwined :
    Grounded entwinedTable.lookup ∧ entwinedTable.hierarchy.OrdersTypes := by
  have grounded : Grounded entwinedTable.lookup := ⟨by decide, by decide, by decide⟩
  have orders := ordersTypes_ofLookup (entwinedTable.entries.map fun entry => entry.1)
    entwinedTable.lookup entwinedTable.mem_of_lookup grounded
  exact ⟨grounded, orders⟩

end Hierarchy

/-! ## Tables of classes -/

namespace ClassTable

/-- An entry of a table links its class to the superclass and to the interfaces. -/
def Links (table : ClassTable) (lower upper : BinaryName) : Prop :=
  ∃ record, table.lookup lower = some record ∧
    (record.superclass = some upper ∨ upper ∈ record.interfaces)

theorem links_iff {table : ClassTable} {lower upper : BinaryName} :
    table.Links lower upper ↔ upper ∈ Hierarchy.supertypes table.lookup lower := by
  simp [Links, Hierarchy.mem_supertypes_iff, ClassRecord.supertypes]

/-- The search of a table comes to an end, whatever cycles the classes form, and finds a
class exactly if links lead there, none at all included. -/
theorem isSubclass_iff_reflTransGen_links (table : ClassTable) (sub super : BinaryName) :
    table.hierarchy.isSubclass sub super = true ↔
      Relation.ReflTransGen table.Links sub super := by
  have links_eq : table.Links =
      fun lower upper => upper ∈ Hierarchy.supertypes table.lookup lower := by
    ext lower upper
    exact links_iff
  rw [links_eq]
  exact Hierarchy.isSubclass_ofLookup_iff

-- Two classes above each other do not keep the search from ending.
example :
    let table : ClassTable :=
      ⟨[(.throwable, ⟨some .string, [], false⟩), (.string, ⟨some .throwable, [], false⟩)]⟩
    table.hierarchy.isSubclass .throwable .cloneable = false := by cbv

end ClassTable

end StackMaps
