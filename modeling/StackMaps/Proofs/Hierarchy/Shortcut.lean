import StackMaps.Hierarchy.Assignable
import StackMaps.Hierarchy.Library
import StackMaps.Hierarchy.Table
import StackMaps.Proofs.Hierarchy.Order

/-!
# The shortcut past the interfaces

In the search for a class that is known to be no interface a class graph leaves out the
interfaces. The answers are those of the plain search through the same declarations: behind
an interface there are only interfaces, the root class and classes without a declaration.
-/

namespace StackMaps

/-- The superclass of a node, if there is one, with the interfaces behind it. -/
def ClassNode.supertypes (node : ClassNode) : List BinaryName :=
  node.superclass.toList ++ node.interfaces

theorem ClassNode.supertypes_placeholder (name : BinaryName) :
    (placeholder name).supertypes = [] := rfl

theorem ClassNode.mem_interfaces_declare
    {node : ClassNode}
    {superclass : Option BinaryName}
    {interfaces : List BinaryName}
    {flags : ClassFlags}
    {above : BinaryName} :
    above ∈ (node.declare superclass interfaces flags).interfaces ↔
      above ∈ node.interfaces ∨ above ∈ interfaces := by
  unfold declare
  dsimp only
  generalize node.interfaces = known
  induction interfaces generalizing known with
  | nil => simp
  | cons interface rest hypothesis =>
      rw [List.foldl_cons, hypothesis]
      split
      next present =>
        rw [List.mem_cons]
        refine ⟨Or.imp_right Or.inr, ?_⟩
        rintro (before | rfl | later)
        · exact Or.inl before
        · exact Or.inl present
        · exact Or.inr later
      next => rw [List.mem_append, List.mem_singleton, List.mem_cons, or_assoc]

namespace ClassGraph

/-- The names of all classes, declared or not. -/
abbrev names (graph : ClassGraph) : List BinaryName :=
  graph.nodes.map ClassNode.name

/-! ## Building a graph -/

/-- A way to add to a graph. -/
inductive Operation where
  | mention (name : BinaryName)
  | declare
      (name : BinaryName)
      (superclass : Option BinaryName)
      (interfaces : List BinaryName)
      (flags : ClassFlags)
  | withLibrary

/-- Add to a graph. -/
def apply (graph : ClassGraph) : Operation → ClassGraph
  | .mention name => graph.mention name
  | .declare name superclass interfaces flags => graph.declare name superclass interfaces flags
  | .withLibrary => graph.withLibrary

/-- The graph that some operations leave behind, one after the other. -/
def build (operations : List Operation) : ClassGraph :=
  operations.foldl apply empty

/-- Classes without a declaration have no supertypes, and the supertypes of the others are in
the graph. -/
structure IsClosed (graph : ClassGraph) : Prop where
  declared : ∀ node ∈ graph.nodes, node.supertypes ≠ [] → node.declared = true
  mem_names : ∀ node ∈ graph.nodes, ∀ above ∈ node.supertypes, above ∈ graph.names

theorem isClosed_empty : empty.IsClosed := ⟨by simp [empty], by simp [empty]⟩

/-- Mentioning a class adds a placeholder or nothing. -/
theorem nodes_mention (graph : ClassGraph) (name : BinaryName) :
    (graph.mention name).nodes = graph.nodes ∧ name ∈ graph.names ∨
      (graph.mention name).nodes = graph.nodes ++ [.placeholder name] := by
  unfold mention
  split
  next present => exact Or.inl ⟨rfl, List.contains_iff_mem.mp present⟩
  next => exact Or.inr rfl

theorem mem_nodes_mention
    {graph : ClassGraph}
    {name : BinaryName}
    {node : ClassNode}
    (present : node ∈ (graph.mention name).nodes) :
    node ∈ graph.nodes ∨ node = .placeholder name := by
  rcases graph.nodes_mention name with ⟨same, _⟩ | added
  · exact Or.inl (same ▸ present)
  · rw [added, List.mem_append, List.mem_singleton] at present
    exact present

theorem names_mention {graph : ClassGraph} {name other : BinaryName} :
    other ∈ (graph.mention name).names ↔ other = name ∨ other ∈ graph.names := by
  rcases graph.nodes_mention name with ⟨same, present⟩ | added
  · rw [names, same]
    exact ⟨Or.inr, fun either => either.elim (fun named => named ▸ present) id⟩
  · rw [names, added, List.map_append, List.mem_append, or_comm]
    exact or_congr_left List.mem_singleton

theorem IsClosed.mention
    {graph : ClassGraph}
    (closed : graph.IsClosed)
    (name : BinaryName) :
    (graph.mention name).IsClosed := by
  constructor
  · intro node present above
    rcases mem_nodes_mention present with before | rfl
    · exact closed.declared node before above
    · exact absurd (ClassNode.supertypes_placeholder name) above
  · intro node present above isAbove
    rcases mem_nodes_mention present with before | rfl
    · exact names_mention.mpr (Or.inr (closed.mem_names node before above isAbove))
    · rw [ClassNode.supertypes_placeholder] at isAbove
      exact absurd isAbove List.not_mem_nil

/-- Mentioning classes one after the other puts all of them in. -/
theorem names_foldl_mention
    (graph : ClassGraph)
    (mentioned : List BinaryName)
    (name : BinaryName) :
    name ∈ (mentioned.foldl mention graph).names ↔ name ∈ mentioned ∨ name ∈ graph.names := by
  induction mentioned generalizing graph with
  | nil => simp
  | cons first rest hypothesis =>
      rw [List.foldl_cons, hypothesis, names_mention, List.mem_cons, or_left_comm, or_assoc]

theorem IsClosed.foldl_mention
    {graph : ClassGraph}
    (closed : graph.IsClosed)
    (mentioned : List BinaryName) :
    (mentioned.foldl ClassGraph.mention graph).IsClosed :=
  List.foldlRecOn _ _ closed fun _ holds name _ => holds.mention name

theorem names_modify
    (graph : ClassGraph)
    (name : BinaryName)
    (change : ClassNode → ClassNode)
    (keepsName : ∀ node, (change node).name = node.name) :
    (graph.modify name change keepsName).names = graph.names := by
  rw [names, modify, List.map_map]
  refine List.map_congr_left fun node _ => ?_
  rw [Function.comp_apply]
  split
  · exact keepsName node
  · rfl

theorem mem_names_modify
    {graph : ClassGraph}
    {name other : BinaryName}
    {change : ClassNode → ClassNode}
    {keepsName : ∀ node, (change node).name = node.name} :
    other ∈ (graph.modify name change keepsName).names ↔ other ∈ graph.names := by
  rw [names_modify]

/-- A declaration mentions the supertypes before it takes them over. -/
theorem IsClosed.declare
    {graph : ClassGraph}
    (closed : graph.IsClosed)
    (name : BinaryName)
    (superclass : Option BinaryName)
    (interfaces : List BinaryName)
    (flags : ClassFlags) :
    (graph.declare name superclass interfaces flags).IsClosed := by
  have closedAfter := (closed.mention name).foldl_mention (superclass.toList ++ interfaces)
  have namesAfter := (graph.mention name).names_foldl_mention (superclass.toList ++ interfaces)
  unfold ClassGraph.declare
  dsimp only
  generalize (superclass.toList ++ interfaces).foldl ClassGraph.mention (graph.mention name) =
    mentioned at closedAfter namesAfter ⊢
  constructor
  · intro node present above
    obtain ⟨before, isBefore, rfl⟩ := List.mem_map.mp present
    split
    next => rfl
    next other =>
      rw [if_neg other] at above
      exact closedAfter.declared before isBefore above
  · intro node present above isAbove
    refine mem_names_modify.mpr ?_
    obtain ⟨before, isBefore, rfl⟩ := List.mem_map.mp present
    split at isAbove
    next =>
      rcases List.mem_append.mp isAbove with isSuperclass | isInterface
      · exact (namesAfter above).mpr (Or.inl (List.mem_append_left _ isSuperclass))
      · rcases ClassNode.mem_interfaces_declare.mp isInterface with known | new
        · exact closedAfter.mem_names before isBefore above (List.mem_append_right _ known)
        · exact (namesAfter above).mpr (Or.inl (List.mem_append_right _ new))
    next => exact closedAfter.mem_names before isBefore above isAbove

theorem IsClosed.withLibrary {graph : ClassGraph} (closed : graph.IsClosed) :
    graph.withLibrary.IsClosed := by
  unfold ClassGraph.withLibrary
  generalize Library.declarations = declarations
  induction declarations generalizing graph with
  | nil => exact closed
  | cons first rest hypothesis => exact hypothesis (closed.declare _ _ _ _)

theorem IsClosed.apply
    {graph : ClassGraph}
    (closed : graph.IsClosed)
    (operation : Operation) :
    (graph.apply operation).IsClosed := by
  cases operation with
  | mention name => exact closed.mention name
  | declare name superclass interfaces flags =>
      exact closed.declare name superclass interfaces flags
  | withLibrary => exact closed.withLibrary

/-- A graph is closed, however it has been built. -/
theorem isClosed_build (operations : List Operation) : (build operations).IsClosed := by
  unfold build
  generalize start : empty = graph
  have closed : graph.IsClosed := start ▸ isClosed_empty
  clear start
  induction operations generalizing graph with
  | nil => exact closed
  | cons first rest hypothesis => exact hypothesis _ (closed.apply first)

/-! ## The edges of a graph -/

/-- The edges that the search follows are those of the declarations. -/
theorem IsClosed.ascend_eq
    {graph : ClassGraph}
    (closed : graph.IsClosed)
    (withInterfaces : Bool)
    (name : BinaryName) :
    graph.ascend withInterfaces name =
      match graph.lookup name with
      | some record =>
          record.superclass.toList ++ if withInterfaces then record.interfaces else []
      | none => [] := by
  unfold ascend lookup
  cases isFound : graph.find? name with
  | none => rfl
  | some node =>
      dsimp only
      by_cases declared : node.declared = true
      · rw [if_pos declared]
      · have none_eq := Decidable.not_not.mp
          (mt (closed.declared node (List.mem_of_find?_eq_some isFound)) declared)
        obtain ⟨superclass_eq, interfaces_eq⟩ := List.append_eq_nil_iff.mp none_eq
        rw [if_neg declared, superclass_eq, interfaces_eq]
        exact ite_self []

/-- The search through a graph with its interfaces follows the supertypes of the
declarations. -/
theorem IsClosed.ascend_true {graph : ClassGraph} (closed : graph.IsClosed) :
    graph.ascend true = Hierarchy.supertypes graph.lookup := by
  funext name
  rw [closed.ascend_eq, Hierarchy.supertypes]
  rfl

theorem find?_eq_none_iff {graph : ClassGraph} {name : BinaryName} :
    graph.find? name = none ↔ name ∉ graph.names := by
  simp [find?]

/-- The shortcut leaves out edges and adds none. -/
theorem ascend_subset (graph : ClassGraph) (withInterfaces : Bool) (name : BinaryName) :
    graph.ascend withInterfaces name ⊆ graph.ascend true name := by
  unfold ascend
  cases graph.find? name with
  | none => exact List.Subset.refl _
  | some node => cases withInterfaces <;> simp

theorem lookup_eq_some_iff {graph : ClassGraph} {name : BinaryName} {record : ClassRecord} :
    graph.lookup name = some record ↔
      ∃ node, graph.find? name = some node ∧ node.declared = true ∧
        record = ⟨node.superclass, node.interfaces, node.isInterface⟩ := by
  unfold lookup
  cases graph.find? name with
  | none => simp
  | some node =>
      by_cases declared : node.declared = true
      · simp only [declared, if_true, Option.some.injEq, exists_eq_left', true_and]
        exact eq_comm
      · simp [declared]

/-- An edge that the shortcut leaves out leads from a declared class to one of its
interfaces. -/
theorem mem_ascend_or_interface
    {graph : ClassGraph}
    {name above : BinaryName}
    (isAbove : above ∈ Hierarchy.supertypes graph.lookup name) :
    above ∈ graph.ascend false name ∨
      ∃ record, graph.lookup name = some record ∧ above ∈ record.interfaces := by
  obtain ⟨record, found, isSupertype⟩ := Hierarchy.mem_supertypes_iff.mp isAbove
  rcases List.mem_append.mp isSupertype with isSuperclass | isInterface
  · obtain ⟨node, isFound, _, rfl⟩ := lookup_eq_some_iff.mp found
    refine Or.inl ?_
    rw [ascend, isFound]
    exact List.mem_append_left _ isSuperclass
  · exact Or.inr ⟨record, found, isInterface⟩

/-- The search does not leave the graph. -/
theorem IsClosed.mem_names_of_ascend
    {graph : ClassGraph}
    (closed : graph.IsClosed)
    {withInterfaces : Bool}
    {name above : BinaryName}
    (isAbove : above ∈ graph.ascend withInterfaces name) :
    above ∈ graph.names := by
  have isSupertype := ascend_subset graph withInterfaces name isAbove
  unfold ascend at isSupertype
  cases isFound : graph.find? name with
  | none =>
      rw [isFound] at isSupertype
      exact absurd isSupertype List.not_mem_nil
  | some node =>
      rw [isFound] at isSupertype
      exact closed.mem_names node (List.mem_of_find?_eq_some isFound) above isSupertype

end ClassGraph

/-! ## Interfaces kept apart from classes -/

namespace Hierarchy

/-- The declarations keep interfaces apart: what is used as an interface is declared as one or
not at all, an interface has no superclass but the root class, and the root class has no
supertypes. -/
structure KeepsInterfacesApart (lookup : BinaryName → Option ClassRecord) : Prop where
  interfaces : ∀ name record, lookup name = some record → ∀ above ∈ record.interfaces,
    ∀ found, lookup above = some found → found.isInterface = true
  superclass : ∀ name record, lookup name = some record → record.isInterface = true →
    record.superclass = none ∨ record.superclass = some .object
  object : ∀ record, lookup .object = some record → record.supertypes = []

/-- It is enough to look at the known classes. -/
theorem keepsInterfacesApart_of_classes
    {hierarchy : Hierarchy}
    (interfaces : ∀ name ∈ hierarchy.classes, ∀ record ∈ hierarchy.lookup name,
      ∀ above ∈ record.interfaces, ∀ found ∈ hierarchy.lookup above, found.isInterface = true)
    (superclass : ∀ name ∈ hierarchy.classes, ∀ record ∈ hierarchy.lookup name,
      record.isInterface = true → record.superclass = none ∨ record.superclass = some .object)
    (object : ∀ record ∈ hierarchy.lookup .object, record.supertypes = []) :
    KeepsInterfacesApart hierarchy.lookup where
  interfaces name record found :=
    interfaces name (hierarchy.mem_classes name record found) record found
  superclass name record found :=
    superclass name (hierarchy.mem_classes name record found) record found
  object := object

/-- The class is the root class or declared as an interface or not declared. -/
def IsAside (lookup : BinaryName → Option ClassRecord) (name : BinaryName) : Prop :=
  name = .object ∨ ∀ record, lookup name = some record → record.isInterface = true

variable {lookup : BinaryName → Option ClassRecord}

/-- Right above a class that is aside there are only such. -/
theorem KeepsInterfacesApart.isAside_of_mem_supertypes
    (apart : KeepsInterfacesApart lookup)
    {name above : BinaryName}
    (aside : IsAside lookup name)
    (isAbove : above ∈ supertypes lookup name) :
    IsAside lookup above := by
  obtain ⟨record, found, isSupertype⟩ := mem_supertypes_iff.mp isAbove
  rcases aside with rfl | onlyInterface
  · rw [apart.object record found] at isSupertype
    exact absurd isSupertype List.not_mem_nil
  · rcases List.mem_append.mp isSupertype with isSuperclass | isInterface
    · rcases apart.superclass name record found (onlyInterface record found) with
        none_eq | object_eq
      · rw [none_eq] at isSuperclass
        exact absurd isSuperclass List.not_mem_nil
      · rw [object_eq] at isSuperclass
        exact Or.inl (List.mem_singleton.mp isSuperclass)
    · exact Or.inr (apart.interfaces name record found above isInterface)

end Hierarchy

namespace ClassGraph

open Hierarchy

/-- A path to a class that is declared, no interface and not the root class follows no
interfaces. -/
theorem leads_ascend_of_leads
    {graph : ClassGraph}
    (apart : KeepsInterfacesApart graph.lookup)
    {sub super : BinaryName}
    (inside : ¬IsAside graph.lookup super)
    (leads : Leads (supertypes graph.lookup) sub super) :
    Leads (graph.ascend false) sub super := by
  refine leads.confine (fun _ aside _ => apart.isAside_of_mem_supertypes aside) ?_ inside
  intro name above isAbove
  rcases mem_ascend_or_interface isAbove with ascends | ⟨record, found, isInterface⟩
  · exact Or.inl ascends
  · exact Or.inr (Or.inr (apart.interfaces name record found above isInterface))

/-- A class that is declared as an interface or not at all: the search for it cannot leave out
the interfaces. -/
def mayBeInterface (graph : ClassGraph) (name : BinaryName) : Bool :=
  (graph.lookup name).all ClassRecord.isInterface

theorem mayBeInterface_eq
    {graph : ClassGraph}
    {name : BinaryName}
    {node : ClassNode}
    (found : graph.find? name = some node) :
    (!node.declared || node.isInterface) = graph.mayBeInterface name := by
  rw [mayBeInterface, lookup, found]
  cases declared : node.declared <;> simp [declared]

/-- The search of a closed graph finds a class exactly if a path of the edges that it follows
leads there, whether the two classes are in the graph or not. -/
theorem IsClosed.isSubclass_iff_leads
    {graph : ClassGraph}
    (closed : graph.IsClosed)
    {sub super : BinaryName} :
    graph.isSubclass sub super = true ↔
      Leads (graph.ascend (graph.mayBeInterface super)) sub super := by
  unfold isSubclass
  cases subFound : graph.find? sub with
  | none =>
      refine decide_eq_true_iff.trans ⟨fun same => same ▸ .refl, fun leads => ?_⟩
      rcases leads.cases_head with same | ⟨above, isAbove, _⟩
      · exact same
      · rw [ascend, subFound] at isAbove
        exact absurd isAbove List.not_mem_nil
  | some start =>
      cases superFound : graph.find? super with
      | none =>
          refine decide_eq_true_iff.trans ⟨fun same => same ▸ .refl, fun leads => ?_⟩
          rcases leads.cases_tail with same | ⟨_, _, isAbove⟩
          · exact same.symm
          · exact absurd (closed.mem_names_of_ascend isAbove) (find?_eq_none_iff.mp superFound)
      | some goal =>
          dsimp only
          rw [mayBeInterface_eq superFound]
          exact searchUp_start_iff fun name above => closed.mem_names_of_ascend

/-- The search of a closed graph finds a class other than the root class exactly if a path of
declared supertypes leads there. -/
theorem IsClosed.isSubclass_iff
    {graph : ClassGraph}
    (closed : graph.IsClosed)
    (apart : KeepsInterfacesApart graph.lookup)
    {sub super : BinaryName}
    (below : super ≠ .object) :
    graph.isSubclass sub super = true ↔ Leads (supertypes graph.lookup) sub super := by
  rw [closed.isSubclass_iff_leads]
  cases kind : graph.mayBeInterface super with
  | true => rw [closed.ascend_true]
  | false =>
      refine ⟨fun leads => ?_, leads_ascend_of_leads apart ?_⟩
      · rw [← closed.ascend_true]
        exact Relation.ReflTransGen.mono
          (fun name above ascends => ascend_subset graph false name ascends) _ _ leads
      · rintro (top | onlyInterface)
        · exact below top
        · obtain ⟨record, found, isClass⟩ := (Option.all_eq_false _ _).mp kind
          exact absurd (onlyInterface record found) (Bool.eq_false_iff.mp isClass)

/-! ## The table of the declarations -/

/-- The declarations of a graph as a table. -/
def table (graph : ClassGraph) : ClassTable :=
  ⟨graph.names.filterMap fun name => (graph.lookup name).map fun record => (name, record)⟩

/-- The table has the declarations of the graph and nothing else. -/
theorem lookup_table (graph : ClassGraph) : graph.table.lookup = graph.lookup := by
  funext name
  have lookup_names (names : List BinaryName) :
      (names.filterMap fun name => (graph.lookup name).map fun record => (name, record)).lookup
        name = if name ∈ names then graph.lookup name else none := by
    induction names with
    | nil => rfl
    | cons first rest hypothesis =>
        by_cases same : name = first
        · subst same
          cases found : graph.lookup name <;> simp [found, hypothesis]
        · have distinct : (name == first) = false := beq_eq_false_iff_ne.mpr same
          cases found : graph.lookup first <;>
            simp [found, hypothesis, same, List.lookup_cons, distinct]
  refine (lookup_names graph.names).trans ?_
  split
  next => rfl
  next absent =>
    cases found : graph.lookup name with
    | none => rfl
    | some record => exact absurd (graph.mem_of_lookup name record found) absent

/-- However a graph has been built, a class is assignable to another one if a path of declared
supertypes leads there, provided that the declarations keep interfaces apart. -/
theorem isFaithful_build
    {operations : List Operation}
    (apart : KeepsInterfacesApart (build operations).lookup) :
    (build operations).hierarchy.IsFaithful := by
  intro sub super
  rw [classAssignable, Bool.or_eq_true, beq_iff_eq]
  by_cases top : super = .object
  · exact ⟨fun _ => Or.inl top, fun _ => Or.inl top⟩
  · exact or_congr_right ((isClosed_build operations).isSubclass_iff apart top)

/-- However a graph has been built, its search answers like the plain search through the same
declarations, provided that they keep interfaces apart. -/
theorem isAssignable_build
    (operations : List Operation)
    (apart : KeepsInterfacesApart (build operations).lookup)
    (table : ClassTable)
    (same : table.lookup = (build operations).lookup)
    (super sub : RefType) :
    (build operations).hierarchy.isAssignable super sub =
      table.hierarchy.isAssignable super sub := by
  have classAssignable_eq : (build operations).hierarchy.classAssignable =
      table.hierarchy.classAssignable := by
    funext first second
    rw [Bool.eq_iff_iff, ClassTable.hierarchy, classAssignable_ofLookup_iff, same, classAssignable,
      Bool.or_eq_true, beq_iff_eq]
    by_cases top : second = .object
    · exact ⟨fun _ => Or.inl top, fun _ => Or.inl top⟩
    · exact or_congr_right ((isClosed_build operations).isSubclass_iff apart top)
  rw [isAssignable, isAssignable, classAssignable_eq]

theorem keepsInterfacesApart_of_names
    {graph : ClassGraph}
    (interfaces : ∀ name ∈ graph.names, ∀ record ∈ graph.lookup name,
      ∀ above ∈ record.interfaces, ∀ found ∈ graph.lookup above, found.isInterface = true)
    (superclass : ∀ name ∈ graph.names, ∀ record ∈ graph.lookup name,
      record.isInterface = true → record.superclass = none ∨ record.superclass = some .object)
    (object : ∀ record ∈ graph.lookup .object, record.supertypes = []) :
    KeepsInterfacesApart graph.lookup :=
  @keepsInterfacesApart_of_classes graph.hierarchy interfaces superclass object

namespace Knotted

/-- A class below the other one. -/
def first : BinaryName := ⟨"First", by decide⟩

/-- A class below the first one. -/
def second : BinaryName := ⟨"Second", by decide⟩

/-- An interface of the first class. -/
def runner : BinaryName := ⟨"Runner", by decide⟩

/-- An interface above the other one and below it. -/
def walker : BinaryName := ⟨"Walker", by decide⟩

/-- Two classes and two interfaces that are above each other, the interfaces declared last. -/
def operations : List Operation := [
  .mention walker,
  .declare first (some second) [runner] Library.plainClass,
  .declare second (some first) [] Library.plainClass,
  .withLibrary,
  .declare walker (some .object) [runner] Library.plainInterface,
  .declare runner none [walker] Library.plainInterface]

theorem keepsInterfacesApart : KeepsInterfacesApart (build operations).lookup :=
  keepsInterfacesApart_of_names (by decide +kernel) (by decide +kernel) (by decide +kernel)

end Knotted

/-- From arrays of the second class to arrays of an interface that only the path through the
first class and its interface reaches, both searches give one answer. -/
theorem isAssignable_build_knotted :
    KeepsInterfacesApart (build Knotted.operations).lookup ∧
      (build Knotted.operations).table.lookup = (build Knotted.operations).lookup ∧
      (build Knotted.operations).hierarchy.isAssignable (.objectArray 1 Knotted.walker)
          (.objectArray 1 Knotted.second) =
        (build Knotted.operations).table.hierarchy.isAssignable (.objectArray 1 Knotted.walker)
          (.objectArray 1 Knotted.second) :=
  ⟨Knotted.keepsInterfacesApart, lookup_table _,
    isAssignable_build Knotted.operations Knotted.keepsInterfacesApart _ (lookup_table _) _ _⟩

end ClassGraph
end StackMaps
