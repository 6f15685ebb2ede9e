import StackMaps.Access
import StackMaps.Hierarchy.Basic

/-!
# Class graphs

A class graph collects declarations of classes in any order. A class that is
only mentioned as a supertype is a placeholder, unknown to the hierarchy until
its own declaration comes. Declaring a class again replaces its superclass and
flags and adds interfaces.
-/

namespace StackMaps

/-- What a graph knows of a class. A placeholder has no supertypes and no
flags. -/
structure ClassNode where
  name : BinaryName
  superclass : Option BinaryName
  interfaces : List BinaryName
  flags : ClassFlags
  declared : Bool
  deriving DecidableEq

namespace ClassNode

/-- A class that has only been mentioned. -/
def placeholder (name : BinaryName) : ClassNode :=
  { name, superclass := none, interfaces := [], flags := .empty, declared := false }

/-- Is this an interface? -/
def isInterface (node : ClassNode) : Bool :=
  node.flags.isInterface

/-- Take over a declaration. -/
def declare
    (node : ClassNode)
    (superclass : Option BinaryName)
    (interfaces : List BinaryName)
    (flags : ClassFlags) : ClassNode :=
  { node with
    superclass
    interfaces := interfaces.foldl
      (fun known interface => if interface ∈ known then known else known ++ [interface])
      node.interfaces
    flags
    declared := true }

end ClassNode

/-- A class of a graph, by the position at which it was created. -/
structure ClassHandle where
  index : Nat
  deriving DecidableEq

/-- Classes in the order in which they were first mentioned. -/
structure ClassGraph where
  nodes : List ClassNode
  nodup : (nodes.map ClassNode.name).Nodup

namespace ClassGraph

/-- The graph without classes. -/
def empty : ClassGraph := ⟨[], by simp⟩

/-- The class with a name, declared or not. -/
def find? (graph : ClassGraph) (name : BinaryName) : Option ClassNode :=
  graph.nodes.find? fun node => node.name = name

/-- The handle of a class, if it has one. -/
def handle? (graph : ClassGraph) (name : BinaryName) : Option ClassHandle :=
  (graph.nodes.findIdx? fun node => node.name = name).map ClassHandle.mk

/-- Mention a class, which makes it a placeholder if it is new. -/
def mention (graph : ClassGraph) (name : BinaryName) : ClassGraph :=
  if absent : (graph.nodes.map ClassNode.name).contains name then graph
  else
    { nodes := graph.nodes ++ [.placeholder name]
      nodup := by
        have fresh : ∀ node ∈ graph.nodes, ¬node.name = name := by
          simpa using absent
        rw [List.map_append, List.nodup_append]
        refine ⟨graph.nodup, by simp, ?_⟩
        intro known isKnown new isNew
        obtain ⟨node, isNode, rfl⟩ := List.mem_map.mp isKnown
        have : new = name := by simpa [ClassNode.placeholder] using isNew
        exact this ▸ fresh node isNode }

/-- Change the class with a name. -/
def modify
    (graph : ClassGraph)
    (name : BinaryName)
    (change : ClassNode → ClassNode)
    (keepsName : ∀ node, (change node).name = node.name) : ClassGraph where
  nodes := graph.nodes.map fun node => if node.name = name then change node else node
  nodup := by
    have same :
        (graph.nodes.map fun node =>
          if node.name = name then change node else node).map ClassNode.name =
          graph.nodes.map ClassNode.name := by
      rw [List.map_map]
      apply List.map_congr_left
      intro node _
      simp only [Function.comp_apply]
      split
      · exact keepsName node
      · rfl
    rw [same]
    exact graph.nodup

/-- Declare a class with its direct supertypes, which are mentioned thereby. -/
def declare
    (graph : ClassGraph)
    (name : BinaryName)
    (superclass : Option BinaryName)
    (interfaces : List BinaryName)
    (flags : ClassFlags) : ClassGraph :=
  let mentioned := (superclass.toList ++ interfaces).foldl mention (graph.mention name)
  mentioned.modify name (·.declare superclass interfaces flags) fun _ => rfl

/-- The direct supertypes of a class that has been declared. -/
def lookup (graph : ClassGraph) (name : BinaryName) : Option ClassRecord :=
  match graph.find? name with
  | some node =>
      if node.declared then
        some ⟨node.superclass, node.interfaces, node.isInterface⟩
      else none
  | none => none

/-- The classes to follow in the search for a supertype. The interfaces can be
left out if the goal is known to be no interface. -/
def ascend (graph : ClassGraph) (withInterfaces : Bool) (name : BinaryName) :
    List BinaryName :=
  match graph.find? name with
  | some node =>
      node.superclass.toList ++ if withInterfaces then node.interfaces else []
  | none => []

/-- Does the first class descend from the second? Classes that the graph does
not have descend from themselves alone. -/
def isSubclass (graph : ClassGraph) (sub super : BinaryName) : Bool :=
  match graph.find? sub, graph.find? super with
  | some _, some goal =>
      let withInterfaces := !goal.declared || goal.isInterface
      searchUp (graph.ascend withInterfaces) super (.start (graph.nodes.map ClassNode.name) sub)
  | _, _ => sub = super

/-- Every class with supertypes is in the graph. -/
theorem mem_of_lookup
    (graph : ClassGraph)
    (name : BinaryName)
    (record : ClassRecord)
    (found : graph.lookup name = some record) :
    name ∈ graph.nodes.map ClassNode.name := by
  unfold lookup at found
  split at found
  · rename_i node isFound
    have isNode := List.mem_of_find?_eq_some isFound
    have named := List.find?_some isFound
    exact List.mem_map.mpr ⟨node, isNode, by simpa using named⟩
  · contradiction

/-- The hierarchy of a graph. -/
def hierarchy (graph : ClassGraph) : Hierarchy where
  classes := graph.nodes.map ClassNode.name
  lookup := graph.lookup
  isSubclass := graph.isSubclass
  mem_classes := graph.mem_of_lookup

end ClassGraph

end StackMaps
