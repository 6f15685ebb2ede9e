import StackMaps.Proofs.Hierarchy.Shortcut

/-!
# Closest ancestors

A class that is no interface is above another one only along the line of its superclasses.
So the walk up this line finds the closest class above both, and the common supertype of two
types is assignable to every other type above both that is neither an interface nor an array
of interfaces. The exception are two arrays of references that are unlike: they meet in the
root class, although they are arrays of objects.
-/

namespace StackMaps
namespace Hierarchy

/-! ## Hierarchies without cycles and with interfaces apart -/

/-- The hierarchies that there are: those with the search up all supertypes, and the class
graphs, however they have been built. -/
inductive IsBuilt : Hierarchy → Prop
  | ofLookup
      (classes : List BinaryName)
      (lookup : BinaryName → Option ClassRecord)
      (mem_classes : ∀ name record, lookup name = some record → name ∈ classes) :
      IsBuilt (.ofLookup classes lookup mem_classes)
  | ofGraph (operations : List ClassGraph.Operation) :
      IsBuilt (ClassGraph.build operations).hierarchy

theorem isBuilt_table (table : ClassTable) : table.hierarchy.IsBuilt :=
  .ofLookup _ _ _

theorem IsBuilt.isFaithful
    {hierarchy : Hierarchy}
    (built : hierarchy.IsBuilt)
    (apart : KeepsInterfacesApart hierarchy.lookup) :
    hierarchy.IsFaithful := by
  cases built with
  | ofLookup classes lookup mem_classes => exact isFaithful_ofLookup
  | ofGraph operations => exact ClassGraph.isFaithful_build apart

/-- No class is above itself. -/
def Acyclic (lookup : BinaryName → Option ClassRecord) : Prop :=
  ∀ name, ¬Relation.TransGen (fun current above => above ∈ supertypes lookup current) name name

/-- The class is declared as an interface, or listed among the interfaces of another one. The
root class is none, wherever it is listed. -/
def IsInterface (lookup : BinaryName → Option ClassRecord) (name : BinaryName) : Prop :=
  name ≠ .object ∧
    ((∃ record, lookup name = some record ∧ record.isInterface = true) ∨
      ∃ other record, lookup other = some record ∧ name ∈ record.interfaces)

/-- The declarations keep interfaces apart, and no interface is used as a superclass. -/
structure Layered (lookup : BinaryName → Option ClassRecord) : Prop extends
    KeepsInterfacesApart lookup where
  not_superclass : ∀ name record, lookup name = some record → ∀ above,
    record.superclass = some above → ¬IsInterface lookup above

section Checks

variable {hierarchy : Hierarchy}

/-- It is enough to look at the known classes. -/
theorem layered_of_classes
    (apart : KeepsInterfacesApart hierarchy.lookup)
    (declared : ∀ name ∈ hierarchy.classes, ∀ record ∈ hierarchy.lookup name,
      ∀ above ∈ record.superclass, ∀ found ∈ hierarchy.lookup above, found.isInterface = false)
    (listed : ∀ name ∈ hierarchy.classes, ∀ record ∈ hierarchy.lookup name,
      ∀ above ∈ record.superclass, above = .object ∨ ∀ other ∈ hierarchy.classes,
        ∀ found ∈ hierarchy.lookup other, above ∉ found.interfaces) :
    Layered hierarchy.lookup where
  toKeepsInterfacesApart := apart
  not_superclass name record found above isSuperclass := by
    have known := hierarchy.mem_classes name record found
    rintro ⟨below, ⟨other, otherFound, isInterface⟩ | ⟨other, otherRecord, otherFound, isListed⟩⟩
    · have isClass := declared name known record found above isSuperclass other otherFound
      exact Bool.false_ne_true (isClass.symm.trans isInterface)
    · exact (listed name known record found above isSuperclass).resolve_left below other
        (hierarchy.mem_classes other otherRecord otherFound) otherRecord otherFound isListed

/-- There are no cycles if the supertypes of all known classes come earlier in some order. -/
theorem acyclic_of_order
    (order : List BinaryName)
    (earlier : ∀ name ∈ hierarchy.classes, ∀ record ∈ hierarchy.lookup name,
      ∀ above ∈ record.supertypes, order.idxOf above < order.idxOf name) :
    Acyclic hierarchy.lookup := by
  have falls : ∀ name above,
      Relation.TransGen (fun current above => above ∈ supertypes hierarchy.lookup current)
        name above → order.idxOf above < order.idxOf name := by
    intro name above climbs
    have step : ∀ current above, above ∈ supertypes hierarchy.lookup current →
        order.idxOf above < order.idxOf current := by
      intro current above isAbove
      obtain ⟨record, found, isSupertype⟩ := mem_supertypes_iff.mp isAbove
      exact earlier current (hierarchy.mem_classes current record found) record found above
        isSupertype
    induction climbs with
    | single isAbove => exact step _ _ isAbove
    | tail _ isAbove hypothesis => exact Nat.lt_trans (step _ _ isAbove) hypothesis
  exact fun name cycle => Nat.lt_irrefl _ (falls name name cycle)

end Checks

/-! ## The line of superclasses -/

section Superclasses

variable {lookup : BinaryName → Option ClassRecord}

/-- The superclass of a class, if there is one. -/
def superclasses (lookup : BinaryName → Option ClassRecord) (name : BinaryName) :
    List BinaryName :=
  ((lookup name).bind (·.superclass)).toList

theorem mem_superclasses_iff {name above : BinaryName} :
    above ∈ superclasses lookup name ↔
      ∃ record, lookup name = some record ∧ record.superclass = some above := by
  simp [superclasses, Option.bind_eq_some_iff]

theorem mem_supertypes_of_superclasses
    {name above : BinaryName}
    (isAbove : above ∈ superclasses lookup name) :
    above ∈ supertypes lookup name := by
  obtain ⟨record, found, isSuperclass⟩ := mem_superclasses_iff.mp isAbove
  refine mem_supertypes_iff.mpr ⟨record, found, List.mem_append_left _ ?_⟩
  rw [isSuperclass]
  exact List.mem_singleton_self above

/-- A supertype is the superclass, or an interface, or the root class. -/
theorem mem_superclasses_or_isInterface
    {name above : BinaryName}
    (isAbove : above ∈ supertypes lookup name) :
    above ∈ superclasses lookup name ∨ above = .object ∨ IsInterface lookup above := by
  obtain ⟨record, found, isSupertype⟩ := mem_supertypes_iff.mp isAbove
  rcases List.mem_append.mp isSupertype with isSuperclass | isListed
  · exact Or.inl (mem_superclasses_iff.mpr ⟨record, found, Option.mem_toList.mp isSuperclass⟩)
  · by_cases top : above = .object
    · exact Or.inr (Or.inl top)
    · exact Or.inr (Or.inr ⟨top, Or.inr ⟨name, record, found, isListed⟩⟩)

theorem KeepsInterfacesApart.supertypes_object (apart : KeepsInterfacesApart lookup) :
    supertypes lookup .object = [] := by
  refine List.eq_nil_iff_forall_not_mem.mpr fun above isAbove => ?_
  obtain ⟨record, found, isSupertype⟩ := mem_supertypes_iff.mp isAbove
  rw [apart.object record found] at isSupertype
  exact absurd isSupertype List.not_mem_nil

/-- Right above an interface there are only interfaces and the root class, and above this one
there is nothing. -/
theorem KeepsInterfacesApart.object_or_isInterface
    (apart : KeepsInterfacesApart lookup)
    {name above : BinaryName}
    (outside : name = .object ∨ IsInterface lookup name)
    (isAbove : above ∈ supertypes lookup name) :
    above = .object ∨ IsInterface lookup above := by
  rcases mem_superclasses_or_isInterface isAbove with isSuperclass | outsideAbove
  · obtain ⟨record, found, superclass_eq⟩ := mem_superclasses_iff.mp isSuperclass
    have isInterface : record.isInterface = true := by
      rcases outside with rfl | ⟨_, ⟨_, foundAgain, isInterface⟩ | ⟨other, _, otherFound, isListed⟩⟩
      · rw [apart.supertypes_object] at isAbove
        exact absurd isAbove List.not_mem_nil
      · cases found.symm.trans foundAgain
        exact isInterface
      · exact apart.interfaces other _ otherFound name isListed record found
    rcases apart.superclass name record found isInterface with none_eq | object_eq
    · cases superclass_eq.symm.trans none_eq
    · exact Or.inl (Option.some.inj (superclass_eq.symm.trans object_eq))
  · exact outsideAbove

/-- A class that is neither an interface nor the root class is reached along superclasses. -/
theorem KeepsInterfacesApart.leads_superclasses
    (apart : KeepsInterfacesApart lookup)
    {sub super : BinaryName}
    (inside : ¬(super = .object ∨ IsInterface lookup super))
    (leads : Leads (supertypes lookup) sub super) :
    Leads (superclasses lookup) sub super :=
  leads.confine (fun _ outside _ => apart.object_or_isInterface outside)
    (fun _ _ => mem_superclasses_or_isInterface) inside

end Superclasses

/-! ## The walk up the superclasses -/

section Walk

variable {α : Type} {next : α → List α} {goal : α}

/-- A path that stays among allowed elements until it ends. -/
abbrev LeadsWithin (next : α → List α) (allowed : List α) : α → α → Prop :=
  Relation.ReflTransGen fun current above => current ∈ allowed ∧ above ∈ next current

/-- Where every element has only one that follows it, a path from there never has to come
back. -/
theorem LeadsWithin.erase
    [DecidableEq α]
    (single : ∀ current, ∀ above ∈ next current, ∀ other ∈ next current, above = other)
    {allowed : List α}
    {current start : α}
    (distinct : current ≠ goal)
    (follows : start ∈ next current)
    (leads : LeadsWithin next allowed start goal) :
    LeadsWithin next (allowed.erase current) start goal := by
  -- A path that comes through `current` goes on from `start` once more.
  have shorter : ∀ between, LeadsWithin next allowed between goal →
      LeadsWithin next (allowed.erase current) between goal ∨
        LeadsWithin next (allowed.erase current) start goal := by
    intro between leads
    induction leads using Relation.ReflTransGen.head_induction_on with
    | refl => exact Or.inl .refl
    | @head first second step _ hypothesis =>
        rcases hypothesis with later | done
        · by_cases same : first = current
          · subst same
            rw [single first second step.2 start follows] at later
            exact Or.inr later
          · exact Or.inl (.head ⟨(List.mem_erase_of_ne same).mpr step.1, step.2⟩ later)
        · exact Or.inr done
  exact (shorter start leads).elim id id

end Walk

section Classes

variable {hierarchy : Hierarchy}

theorem eq_of_mem_superclasses
    {name above other : BinaryName}
    (isAbove : above ∈ superclasses hierarchy.lookup name)
    (isOther : other ∈ superclasses hierarchy.lookup name) :
    above = other := by
  simp only [superclasses, Option.mem_toList] at isAbove isOther
  exact Option.some.inj (isAbove.symm.trans isOther)

/-- The walk ends at the latest at a superclass that suits. -/
theorem leads_superclassFrom
    {other goal : BinaryName}
    (suits : hierarchy.classAssignable other goal = true)
    {unvisited : List BinaryName}
    {current : BinaryName}
    (leads : LeadsWithin (superclasses hierarchy.lookup) unvisited current goal) :
    Leads (superclasses hierarchy.lookup)
      (hierarchy.superclassFrom other unvisited current) goal := by
  fun_induction superclassFrom hierarchy other unvisited current with
  | case1 unvisited current suited =>
      exact Relation.ReflTransGen.mono (fun _ _ step => step.2) _ _ leads
  | case2 unvisited current unsuited none_eq =>
      rcases leads.cases_head with rfl | ⟨above, ⟨_, isAbove⟩, _⟩
      · exact absurd suits unsuited
      · simp [superclasses, none_eq] at isAbove
  | case3 unvisited current unsuited superclass superclass_eq present hypothesis =>
      have isSuperclass : superclass ∈ superclasses hierarchy.lookup current := by
        simp [superclasses, superclass_eq]
      rcases leads.cases_head with rfl | ⟨above, ⟨_, isAbove⟩, later⟩
      · exact absurd suits unsuited
      · rw [eq_of_mem_superclasses isAbove isSuperclass] at later
        have distinct : current ≠ goal := by
          rintro rfl
          exact unsuited suits
        exact hypothesis
          (LeadsWithin.erase (fun _ _ isFirst _ => eq_of_mem_superclasses isFirst) distinct
            isSuperclass later)
  | case4 unvisited current unsuited superclass superclass_eq absent =>
      rcases leads.cases_head with rfl | ⟨above, ⟨present, _⟩, _⟩
      · exact absurd suits unsuited
      · exact absurd present absent

/-- A class that is no interface is above the closest superclass if it is above both
classes. -/
theorem IsFaithful.classAssignable_commonSuperclass
    (faithful : hierarchy.IsFaithful)
    (apart : KeepsInterfacesApart hierarchy.lookup)
    {first second super : BinaryName}
    (isClass : ¬IsInterface hierarchy.lookup super)
    (firstBelow : hierarchy.classAssignable first super = true)
    (secondBelow : hierarchy.classAssignable second super = true) :
    hierarchy.classAssignable (hierarchy.commonSuperclass first second) super = true := by
  by_cases top : super = .object
  · rw [top]
    exact classAssignable_object _
  · have leads := ((faithful first super).mp firstBelow).resolve_left top
    have line : LeadsWithin (superclasses hierarchy.lookup) hierarchy.classes first super := by
      refine Relation.ReflTransGen.mono ?_ _ _
        (apart.leads_superclasses (not_or.mpr ⟨top, isClass⟩) leads)
      intro name above isAbove
      obtain ⟨record, found, _⟩ := mem_superclasses_iff.mp isAbove
      exact ⟨hierarchy.mem_classes name record found, isAbove⟩
    refine (faithful _ super).mpr (Or.inr ?_)
    exact Relation.ReflTransGen.mono (fun _ _ => mem_supertypes_of_superclasses) _ _
      (leads_superclassFrom secondBelow line)

end Classes

/-! ## Least types -/

section Types

variable {hierarchy : Hierarchy}

/-- The type is neither an interface, those of arrays included, nor an array of interfaces. -/
def IsConcrete (lookup : BinaryName → Option ClassRecord) : RefType → Prop
  | .object name | .objectArray _ name =>
      name ≠ .cloneable ∧ name ≠ .serializable ∧ ¬IsInterface lookup name
  | .primitiveArray _ _ => True

theorem not_isInterface_object (lookup : BinaryName → Option ClassRecord) :
    ¬IsInterface lookup .object := fun isInterface => isInterface.1 rfl

/-- Of the supertypes of arrays only the root class is concrete. -/
theorem eq_object_of_isArraySupertype
    {lookup : BinaryName → Option ClassRecord}
    {name : BinaryName}
    (concrete : IsConcrete lookup (.object name))
    (isArray : name.isArraySupertype = true) :
    name = .object := by
  simp only [BinaryName.isArraySupertype, Bool.or_eq_true, beq_iff_eq] at isArray
  exact isArray.elim (fun either => either.resolve_right concrete.1)
    fun same => absurd same concrete.2.1

/-- What can come out as a common supertype. -/
theorem commonSupertype_cases (first second : RefType) :
    hierarchy.commonSupertype first second = first ∨
    hierarchy.commonSupertype first second = second ∨
    (∃ name other, first = .object name ∧ second = .object other ∧
      hierarchy.commonSupertype first second =
        .object (hierarchy.commonSuperclass name other)) ∨
    (∃ depth element other, first = .objectArray depth element ∧
      second = .objectArray depth other ∧
      hierarchy.commonSupertype first second =
        .objectArray depth (hierarchy.commonSuperclass element other)) ∨
    ((¬∃ name other, first = .object name ∧ second = .object other) ∧
      hierarchy.commonSupertype first second = .object .object) := by
  unfold commonSupertype
  split
  · exact Or.inl rfl
  · refine Or.inr ?_
    split
    · exact Or.inl rfl
    · refine Or.inr ?_
      split
      next depth element otherDepth other _ _ =>
          split
          next same => exact Or.inr (Or.inl ⟨depth, element, other, rfl, same ▸ rfl, rfl⟩)
          next => exact Or.inr (Or.inr ⟨by simp, rfl⟩)
      next name other _ _ => exact Or.inl ⟨name, other, rfl, rfl, rfl⟩
      next _ notObjects =>
          refine Or.inr (Or.inr ⟨?_, rfl⟩)
          rintro ⟨name, other, rfl, rfl⟩
          exact notObjects name other rfl rfl

/-- What is assignable to an array of classes is an array of objects. -/
theorem isAssignable_objects
    {depth : Nat}
    {element : BinaryName}
    {type : RefType}
    (below : hierarchy.isAssignable (.objectArray depth element) type = true) :
    hierarchy.isAssignable (.objectArray 0 .object) type = true := by
  cases type with
  | object name => simp [isAssignable, RefType.isAssignable] at below
  | objectArray otherDepth other =>
      cases otherDepth with
      | zero => simp [isAssignable, RefType.isAssignable, classAssignable_object]
      | succ otherDepth =>
          simp [isAssignable, RefType.isAssignable, BinaryName.isArraySupertype]
  | primitiveArray otherDepth other =>
      simp only [isAssignable, RefType.isAssignable, Bool.and_eq_true, decide_eq_true_eq] at below ⊢
      exact ⟨Nat.zero_lt_of_lt below.1, rfl⟩

/-- A concrete type above two classes or two arrays of classes is above the closest one. -/
theorem IsFaithful.isAssignable_commonSuperclass
    (faithful : hierarchy.IsFaithful)
    (apart : KeepsInterfacesApart hierarchy.lookup)
    {first second : BinaryName}
    {super : RefType}
    (concrete : IsConcrete hierarchy.lookup super) :
    (hierarchy.isAssignable super (.object first) = true →
      hierarchy.isAssignable super (.object second) = true →
      hierarchy.isAssignable super (.object (hierarchy.commonSuperclass first second)) = true) ∧
    ∀ depth, hierarchy.isAssignable super (.objectArray depth first) = true →
      hierarchy.isAssignable super (.objectArray depth second) = true →
      hierarchy.isAssignable super
        (.objectArray depth (hierarchy.commonSuperclass first second)) = true := by
  have closest {name : BinaryName} (isClass : ¬IsInterface hierarchy.lookup name) :=
    @IsFaithful.classAssignable_commonSuperclass _ faithful apart first second name isClass
  cases super with
  | object name =>
      refine ⟨fun firstBelow secondBelow => closest concrete.2.2 firstBelow secondBelow, ?_⟩
      exact fun _ firstBelow _ => firstBelow
  | objectArray otherDepth element =>
      refine ⟨fun firstBelow => absurd firstBelow Bool.false_ne_true, ?_⟩
      intro depth firstBelow secondBelow
      simp only [isAssignable, RefType.isAssignable] at firstBelow secondBelow ⊢
      split
      next shallow =>
          rw [if_pos shallow] at firstBelow
          exact firstBelow
      next deep =>
          rw [if_neg deep] at firstBelow secondBelow
          split
          next same =>
              rw [if_pos same] at firstBelow secondBelow
              exact closest concrete.2.2 firstBelow secondBelow
          next differ =>
              rw [if_neg differ] at firstBelow
              exact firstBelow
  | primitiveArray otherDepth element =>
      exact ⟨fun firstBelow => absurd firstBelow Bool.false_ne_true,
        fun _ firstBelow => absurd firstBelow Bool.false_ne_true⟩

/-- A concrete type above two types that are not both classes, and of which one is no array of
objects, is the root class or equal to both of them. -/
theorem eq_object_or_eq_of_isAssignable
    {first second super : RefType}
    (concrete : IsConcrete hierarchy.lookup super)
    (notClasses : ¬∃ name other, first = .object name ∧ second = .object other)
    (notObjects : ¬(hierarchy.isAssignable (.objectArray 0 .object) first = true ∧
      hierarchy.isAssignable (.objectArray 0 .object) second = true))
    (firstBelow : hierarchy.isAssignable super first = true)
    (secondBelow : hierarchy.isAssignable super second = true) :
    super = .object .object ∨ (first = super ∧ second = super) := by
  cases super with
  | object name =>
      refine Or.inl (congrArg RefType.object (eq_object_of_isArraySupertype concrete ?_))
      cases first with
      | objectArray depth element => exact firstBelow
      | primitiveArray depth element => exact firstBelow
      | object first =>
          cases second with
          | objectArray depth element => exact secondBelow
          | primitiveArray depth element => exact secondBelow
          | object second => exact absurd ⟨first, second, rfl, rfl⟩ notClasses
  | objectArray depth element =>
      exact absurd ⟨isAssignable_objects firstBelow, isAssignable_objects secondBelow⟩ notObjects
  | primitiveArray depth element =>
      have eq_of_below : ∀ type, hierarchy.isAssignable (.primitiveArray depth element) type =
          true → type = .primitiveArray depth element := by
        intro type below
        cases type <;> simp_all [isAssignable, RefType.isAssignable]
      exact Or.inr ⟨eq_of_below first firstBelow, eq_of_below second secondBelow⟩

/-- The common supertype of two types is assignable to all concrete types above both of them
exactly if it is not the root class where both are arrays of objects. -/
theorem isLeast_commonSupertype_iff
    (built : hierarchy.IsBuilt)
    (apart : KeepsInterfacesApart hierarchy.lookup)
    (first second : RefType) :
    (∀ super, IsConcrete hierarchy.lookup super →
      hierarchy.isAssignable super first = true → hierarchy.isAssignable super second = true →
      hierarchy.isAssignable super (hierarchy.commonSupertype first second) = true) ↔
    ¬(hierarchy.commonSupertype first second = .object .object ∧
      hierarchy.isAssignable (.objectArray 0 .object) first = true ∧
      hierarchy.isAssignable (.objectArray 0 .object) second = true) := by
  have faithful := built.isFaithful apart
  constructor
  · rintro least ⟨root, firstBelow, secondBelow⟩
    have concrete : IsConcrete hierarchy.lookup (.objectArray 0 .object) :=
      ⟨by decide, by decide, not_isInterface_object hierarchy.lookup⟩
    have below := least (.objectArray 0 .object) concrete firstBelow secondBelow
    rw [root] at below
    exact Bool.false_ne_true below
  · intro reaches super concrete firstBelow secondBelow
    rcases @commonSupertype_cases hierarchy first second with same | same |
      ⟨name, other, rfl, rfl, same⟩ | ⟨depth, element, other, rfl, rfl, same⟩ |
      ⟨notClasses, same⟩
    · rw [same]
      exact firstBelow
    · rw [same]
      exact secondBelow
    · rw [same]
      exact (faithful.isAssignable_commonSuperclass apart concrete).1 firstBelow secondBelow
    · rw [same]
      exact (faithful.isAssignable_commonSuperclass apart concrete).2 depth firstBelow secondBelow
    · rcases eq_object_or_eq_of_isAssignable concrete notClasses
        (fun below => reaches ⟨same, below⟩) firstBelow secondBelow with rfl | ⟨rfl, rfl⟩
      · exact isAssignable_object _
      · rw [commonSupertype_of_isAssignable firstBelow]
        exact firstBelow

end Types

namespace Shapes

/-- An interface. -/
def drawable : BinaryName := ⟨"Drawable", by decide⟩

/-- A class right below the root class. -/
def shape : BinaryName := ⟨"Shape", by decide⟩

/-- A shape that can be drawn. -/
def circle : BinaryName := ⟨"Circle", by decide⟩

/-- Another shape that can be drawn. -/
def square : BinaryName := ⟨"Square", by decide⟩

/-- Two classes with one superclass and one interface. -/
def table : ClassTable :=
  ⟨[(drawable, ⟨some .object, [], true⟩),
    (shape, ⟨some .object, [], false⟩),
    (circle, ⟨some shape, [drawable], false⟩),
    (square, ⟨some shape, [drawable], false⟩)]⟩

theorem layered : Layered table.lookup :=
  @layered_of_classes table.hierarchy
    (keepsInterfacesApart_of_classes (by decide +kernel) (by decide +kernel) (by decide +kernel))
    (by decide +kernel) (by decide +kernel)

theorem acyclic : Acyclic table.lookup :=
  @acyclic_of_order table.hierarchy [.object, drawable, shape, circle, square]
    (by decide +kernel)

end Shapes

/-- All concrete types above the arrays of circles and those of squares are above their common
supertype. -/
theorem isLeast_commonSupertype_iff_shapes :
    Shapes.table.hierarchy.IsBuilt ∧ KeepsInterfacesApart Shapes.table.lookup ∧
      ∀ super, IsConcrete Shapes.table.lookup super →
        Shapes.table.hierarchy.isAssignable super (.objectArray 0 Shapes.circle) = true →
        Shapes.table.hierarchy.isAssignable super (.objectArray 0 Shapes.square) = true →
        Shapes.table.hierarchy.isAssignable super
          (Shapes.table.hierarchy.commonSupertype (.objectArray 0 Shapes.circle)
            (.objectArray 0 Shapes.square)) = true := by
  have built := isBuilt_table Shapes.table
  have apart := Shapes.layered.toKeepsInterfacesApart
  refine ⟨built, apart, (isLeast_commonSupertype_iff built apart _ _).mpr ?_⟩
  rintro ⟨root, _⟩
  unfold commonSupertype at root
  split at root
  · cases root
  · split at root
    · cases root
    · cases root

/-- An array of arrays of circles and one of squares are arrays of objects, but they meet in
the root class. -/
theorem not_isLeast_commonSupertype_unlike :
    Acyclic Shapes.table.lookup ∧ Layered Shapes.table.lookup ∧
      IsConcrete Shapes.table.lookup (.objectArray 0 .object) ∧
      Shapes.table.hierarchy.isAssignable (.objectArray 0 .object)
        (.objectArray 1 Shapes.circle) = true ∧
      Shapes.table.hierarchy.isAssignable (.objectArray 0 .object)
        (.objectArray 0 Shapes.square) = true ∧
      Shapes.table.hierarchy.isAssignable (.objectArray 0 .object)
        (Shapes.table.hierarchy.commonSupertype (.objectArray 1 Shapes.circle)
          (.objectArray 0 Shapes.square)) = false := by
  refine ⟨Shapes.acyclic, Shapes.layered, ?_, by decide, by decide, by decide +kernel⟩
  exact ⟨by decide, by decide, not_isInterface_object _⟩

end Hierarchy
end StackMaps
