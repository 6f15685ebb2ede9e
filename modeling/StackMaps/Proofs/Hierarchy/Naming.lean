import StackMaps.Hierarchy.Library
import StackMaps.Hierarchy.Table
import StackMaps.Proofs.Hierarchy.Shortcut
import StackMaps.Proofs.Slots.Naming

/-!
# Names in hierarchies

The superclasses in a graph or a table are those that have been declared. So none has a name
with a line break if all declarations are written on one line, like those of the library.
-/

namespace StackMaps

namespace ClassGraph

variable {graph : ClassGraph}

/-- All superclasses in a graph have names that are written on one line. -/
def OnOneLine (graph : ClassGraph) : Prop :=
  ∀ node ∈ graph.nodes, ∀ superclass ∈ node.superclass, superclass.OnOneLine

theorem OnOneLine.mention (single : graph.OnOneLine) (name : BinaryName) :
    (graph.mention name).OnOneLine := by
  intro node present
  rcases mem_nodes_mention present with before | rfl
  · exact single node before
  · nofun

theorem OnOneLine.declare
    (single : graph.OnOneLine)
    (name : BinaryName)
    {superclass : Option BinaryName}
    (singleSuperclass : ∀ above ∈ superclass, above.OnOneLine)
    (interfaces : List BinaryName)
    (flags : ClassFlags) :
    (graph.declare name superclass interfaces flags).OnOneLine := by
  have mentioned : ((superclass.toList ++ interfaces).foldl ClassGraph.mention
      (graph.mention name)).OnOneLine :=
    List.foldlRecOn _ _ (single.mention name) fun _ holds other _ => holds.mention other
  intro node present
  obtain ⟨before, isBefore, rfl⟩ := List.mem_map.mp present
  split
  · exact singleSuperclass
  · exact mentioned before isBefore

theorem OnOneLine.withLibrary (single : graph.OnOneLine) : graph.withLibrary.OnOneLine := by
  have declared : ∀ declaration ∈ Library.declarations,
      ∀ above ∈ declaration.superclass, above.OnOneLine := by
    decide +kernel
  refine List.foldlRecOn _ _ single fun _ holds declaration present => ?_
  exact holds.declare _ (declared declaration present) _ _

theorem OnOneLine.hierarchy (single : graph.OnOneLine) : graph.hierarchy.OnOneLine := by
  intro name record found
  obtain ⟨node, isFound, _, rfl⟩ := lookup_eq_some_iff.mp found
  exact single node (List.mem_of_find?_eq_some isFound)

end ClassGraph

namespace ClassTable

variable {table : ClassTable}

/-- All superclasses in a table have names that are written on one line. -/
def OnOneLine (table : ClassTable) : Prop :=
  ∀ entry ∈ table.entries, ∀ superclass ∈ entry.2.superclass, superclass.OnOneLine

theorem OnOneLine.insert
    (single : table.OnOneLine)
    (name : BinaryName)
    {record : ClassRecord}
    (singleSuperclass : ∀ above ∈ record.superclass, above.OnOneLine) :
    (table.insert name record).OnOneLine :=
  List.forall_mem_cons.mpr
    ⟨singleSuperclass, fun entry present => single entry (List.mem_of_mem_filter present)⟩

theorem OnOneLine.hierarchy (single : table.OnOneLine) : table.hierarchy.OnOneLine := by
  intro name record found
  obtain ⟨before, after, split, _⟩ := List.lookup_eq_some_iff.mp found
  exact single (name, record) (by rw [split]; exact List.mem_append_right _ List.mem_cons_self)

end ClassTable

end StackMaps
