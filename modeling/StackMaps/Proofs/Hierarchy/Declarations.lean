import StackMaps.Proofs.Hierarchy.Shortcut
import Mathlib.Data.List.Infix

/-!
# The meaning of declarations

A graph knows of a class what the declarations of this class say, whatever else is mentioned or
declared before, between or after them: the superclass and the flags of the last one, and the
interfaces of all of them. A class keeps the handle that it has got when it was first mentioned.
So the order of declarations of different classes does not show in any answer.
-/

namespace StackMaps

open Library (Declaration)

/-- What some declarations of one class say of it. -/
def Library.recordOf? (declarations : List Declaration) : Option ClassRecord :=
  declarations.getLast?.map fun last =>
    { superclass := last.superclass
      interfaces := (declarations.flatMap (·.interfaces)).eraseDups
      isInterface := last.flags.isInterface }

namespace ClassNode

/-- Take over the whole of a declaration. -/
def take (node : ClassNode) (declaration : Declaration) : ClassNode :=
  node.declare declaration.superclass declaration.interfaces declaration.flags

/-- The interfaces that are known already are not added again. -/
theorem interfaces_declare
    {node : ClassNode}
    {known : List BinaryName}
    (known_eq : node.interfaces = known.eraseDups)
    (superclass : Option BinaryName)
    (interfaces : List BinaryName)
    (flags : ClassFlags) :
    (node.declare superclass interfaces flags).interfaces = (known ++ interfaces).eraseDups := by
  unfold declare
  dsimp only
  rw [known_eq]
  clear known_eq
  induction interfaces generalizing known with
  | nil => rw [List.foldl_nil, List.append_nil]
  | cons interface rest hypothesis =>
      have step : (if interface ∈ known.eraseDups then known.eraseDups
          else known.eraseDups ++ [interface]) = (known ++ [interface]).eraseDups := by
        rw [List.eraseDups_append]
        by_cases present : interface ∈ known <;>
          simp [List.removeAll, List.eraseDups_cons, present]
      rw [List.foldl_cons, step, hypothesis, List.append_assoc, List.singleton_append]

theorem interfaces_foldl_take
    {node : ClassNode}
    {known : List BinaryName}
    (known_eq : node.interfaces = known.eraseDups)
    (declarations : List Declaration) :
    (declarations.foldl take node).interfaces =
      (known ++ declarations.flatMap (·.interfaces)).eraseDups := by
  induction declarations generalizing node known with
  | nil => rw [List.foldl_nil, List.flatMap_nil, List.append_nil, known_eq]
  | cons first rest hypothesis =>
      have taken : (node.take first).interfaces = (known ++ first.interfaces).eraseDups :=
        interfaces_declare known_eq _ _ _
      rw [List.foldl_cons, hypothesis taken, List.flatMap_cons, List.append_assoc]

/-- What a graph answers for a class. -/
def record? (node : ClassNode) : Option ClassRecord :=
  if node.declared then some ⟨node.superclass, node.interfaces, node.isInterface⟩ else none

/-- A placeholder that takes over declarations holds what they say. -/
theorem record?_foldl_take (name : BinaryName) (declarations : List Declaration) :
    (declarations.foldl take (placeholder name)).record? = Library.recordOf? declarations := by
  have interfaces_eq : (declarations.foldl take (placeholder name)).interfaces =
      (declarations.flatMap (·.interfaces)).eraseDups :=
    @interfaces_foldl_take (placeholder name) [] rfl declarations
  rcases List.eq_nil_or_concat declarations with rfl | ⟨front, last, rfl⟩
  · rfl
  · rw [List.concat_eq_append] at interfaces_eq ⊢
    rw [record?, interfaces_eq, Library.recordOf?, List.getLast?_concat, List.foldl_append]
    rfl

end ClassNode

namespace ClassGraph

variable {graph : ClassGraph}

/-! ## What a graph knows of one class -/

/-- What a graph knows of a class. Of a class that it does not have it knows as much as of a
placeholder. -/
def nodeOf (graph : ClassGraph) (name : BinaryName) : ClassNode :=
  (graph.find? name).getD (.placeholder name)

theorem lookup_eq (graph : ClassGraph) (name : BinaryName) :
    graph.lookup name = (graph.nodeOf name).record? := by
  unfold lookup nodeOf
  cases graph.find? name <;> rfl

theorem nodeOf_empty (name : BinaryName) : empty.nodeOf name = .placeholder name := rfl

/-- That a class is mentioned does not show. -/
theorem nodeOf_mention (graph : ClassGraph) (other name : BinaryName) :
    (graph.mention other).nodeOf name = graph.nodeOf name := by
  unfold nodeOf find?
  rcases graph.nodes_mention other with ⟨same, _⟩ | added
  · rw [same]
  · rw [added, List.find?_append]
    cases graph.nodes.find? fun node => decide (node.name = name) with
    | some node => rfl
    | none =>
        by_cases same : other = name <;> simp [ClassNode.placeholder, same]

theorem nodeOf_foldl_mention (graph : ClassGraph) (others : List BinaryName) (name : BinaryName) :
    (others.foldl mention graph).nodeOf name = graph.nodeOf name := by
  induction others generalizing graph with
  | nil => rfl
  | cons first rest hypothesis => rw [List.foldl_cons, hypothesis, nodeOf_mention]

theorem find?_modify
    (graph : ClassGraph)
    (other name : BinaryName)
    (change : ClassNode → ClassNode)
    (keepsName : ∀ node, (change node).name = node.name) :
    (graph.modify other change keepsName).find? name =
      (graph.find? name).map fun node => if name = other then change node else node := by
  have sameName : ((fun node => decide (node.name = name)) ∘ fun node =>
      if node.name = other then change node else node) = fun node => decide (node.name = name) := by
    funext node
    rw [Function.comp_apply]
    split
    · rw [keepsName]
    · rfl
  rw [find?, modify, List.find?_map, sameName]
  refine Option.map_congr fun node found => ?_
  have named : node.name = name := by simpa using List.find?_some found
  rw [named]

/-- A declaration adds to what is known of its class, and to nothing else. -/
theorem nodeOf_declare
    (graph : ClassGraph)
    (declaration : Declaration)
    (name : BinaryName) :
    (graph.declare declaration.name declaration.superclass declaration.interfaces
        declaration.flags).nodeOf name =
      if declaration.name = name then (graph.nodeOf name).take declaration
      else graph.nodeOf name := by
  rw [declare]
  generalize declaration.superclass.toList ++ declaration.interfaces = supertypes
  have present := ((graph.mention declaration.name).names_foldl_mention supertypes
    declaration.name).mpr (Or.inr (names_mention.mpr (Or.inl rfl)))
  have unchanged : (supertypes.foldl mention (graph.mention declaration.name)).nodeOf name =
      graph.nodeOf name := by
    rw [nodeOf_foldl_mention, nodeOf_mention]
  generalize supertypes.foldl mention (graph.mention declaration.name) = mentioned
    at present unchanged ⊢
  refine (congrArg (Option.getD · (.placeholder name))
    (mentioned.find?_modify declaration.name name (·.take declaration) fun _ => rfl)).trans ?_
  rw [← unchanged, nodeOf]
  cases found : mentioned.find? name with
  | some node =>
      by_cases same : declaration.name = name
      · simp [same]
      · rw [Option.map_some, if_neg (Ne.symm same), if_neg same]
  | none =>
      have distinct : declaration.name ≠ name :=
        fun same => find?_eq_none_iff.mp found (same ▸ present)
      rw [if_neg distinct]
      rfl

/-- The declarations of a class that some declarations have among them. -/
def declarationsOf (name : BinaryName) (declarations : List Declaration) : List Declaration :=
  declarations.filter fun declaration => declaration.name = name

theorem nodeOf_foldl_declare
    (graph : ClassGraph)
    (declarations : List Declaration)
    (name : BinaryName) :
    (declarations.foldl
        (fun graph declaration =>
          graph.declare declaration.name declaration.superclass declaration.interfaces
            declaration.flags)
        graph).nodeOf name =
      (declarationsOf name declarations).foldl ClassNode.take (graph.nodeOf name) := by
  induction declarations generalizing graph with
  | nil => rfl
  | cons first rest hypothesis =>
      rw [List.foldl_cons, hypothesis, nodeOf_declare, declarationsOf, declarationsOf,
        List.filter_cons]
      by_cases same : first.name = name <;> simp [same]

/-- The declarations that an operation makes. -/
def Operation.declarations : Operation → List Declaration
  | .mention _ => []
  | .declare name superclass interfaces flags => [⟨name, superclass, interfaces, flags⟩]
  | .withLibrary => Library.declarations

theorem nodeOf_apply (graph : ClassGraph) (operation : Operation) (name : BinaryName) :
    (graph.apply operation).nodeOf name =
      (declarationsOf name operation.declarations).foldl ClassNode.take (graph.nodeOf name) := by
  cases operation with
  | mention other => exact graph.nodeOf_mention other name
  | declare other superclass interfaces flags =>
      exact graph.nodeOf_foldl_declare [⟨other, superclass, interfaces, flags⟩] name
  | withLibrary => exact graph.nodeOf_foldl_declare Library.declarations name

/-- The declarations that some operations make, one after the other. -/
def declarationsIn (operations : List Operation) : List Declaration :=
  operations.flatMap Operation.declarations

theorem nodeOf_foldl_apply
    (graph : ClassGraph)
    (operations : List Operation)
    (name : BinaryName) :
    (operations.foldl apply graph).nodeOf name =
      (declarationsOf name (declarationsIn operations)).foldl ClassNode.take
        (graph.nodeOf name) := by
  induction operations generalizing graph with
  | nil => rfl
  | cons first rest hypothesis =>
      rw [List.foldl_cons, hypothesis, nodeOf_apply, ← List.foldl_append, declarationsIn,
        declarationsIn, List.flatMap_cons, declarationsOf, declarationsOf, declarationsOf,
        List.filter_append]

/-- The answer for a class is what its declarations say. -/
theorem lookup_build (operations : List Operation) (name : BinaryName) :
    (build operations).lookup name =
      Library.recordOf? (declarationsOf name (declarationsIn operations)) := by
  rw [lookup_eq, build, nodeOf_foldl_apply, nodeOf_empty, ClassNode.record?_foldl_take]

/-- That every class is declared at most once leaves at most one declaration of each. -/
theorem length_declarationsOf_le
    {declarations : List Declaration}
    (once : (declarations.map (·.name)).Nodup)
    (name : BinaryName) :
    (declarationsOf name declarations).length ≤ 1 := by
  have named : (declarationsOf name declarations).map (·.name) =
      List.replicate (declarationsOf name declarations).length name := by
    refine List.eq_replicate_iff.mpr ⟨List.length_map _, ?_⟩
    intro other isName
    obtain ⟨declaration, present, rfl⟩ := List.mem_map.mp isName
    exact of_decide_eq_true (List.mem_filter.mp present).2
  have nodup : ((declarationsOf name declarations).map (·.name)).Nodup :=
    once.sublist (List.filter_sublist.map _)
  exact List.nodup_replicate.mp (named ▸ nodup)

/-- The order of the declarations of different classes does not show in what is said of one. -/
theorem declarationsOf_perm
    {declarations others : List Declaration}
    (once : (declarations.map (·.name)).Nodup)
    (perm : declarations.Perm others)
    (name : BinaryName) :
    declarationsOf name others = declarationsOf name declarations := by
  have permOf : (declarationsOf name declarations).Perm (declarationsOf name others) :=
    perm.filter _
  have few := length_declarationsOf_le once name
  generalize declarationsOf name declarations = known at permOf few ⊢
  match known with
  | [] => exact permOf.nil_eq.symm
  | [only] => exact (List.singleton_perm.mp permOf).symm
  | _ :: _ :: _ => simp at few

/-! ## Handles -/

/-- The handle of a class is its place in the order in which the classes were first
mentioned. -/
theorem handle?_eq_some {name : BinaryName} (present : name ∈ graph.names) :
    graph.handle? name = some ⟨graph.names.idxOf name⟩ := by
  have handle_eq : graph.handle? name = (graph.names.idxOf? name).map ClassHandle.mk := by
    rw [handle?, names, List.idxOf?, List.findIdx?_map]
    rfl
  obtain ⟨index, index_eq⟩ := Option.isSome_iff_exists.mp (List.isSome_idxOf?.mpr present)
  rw [handle_eq, List.idxOf_eq_getD_idxOf?, index_eq]
  rfl

/-- A graph has grown out of an earlier one: its further classes come behind the earlier
ones. -/
def GrownFrom (graph earlier : ClassGraph) : Prop :=
  earlier.names <+: graph.names

theorem GrownFrom.trans
    {middle earlier : ClassGraph}
    (later : graph.GrownFrom middle)
    (before : middle.GrownFrom earlier) :
    graph.GrownFrom earlier :=
  List.IsPrefix.trans before later

theorem grownFrom_self (graph : ClassGraph) : graph.GrownFrom graph := List.prefix_rfl

/-- If every step grows a graph then all of them do. -/
theorem grownFrom_foldl
    {α : Type}
    {step : ClassGraph → α → ClassGraph}
    (grows : ∀ graph element, (step graph element).GrownFrom graph)
    (graph : ClassGraph)
    (elements : List α) :
    (elements.foldl step graph).GrownFrom graph := by
  induction elements generalizing graph with
  | nil => exact graph.grownFrom_self
  | cons first rest hypothesis => exact (hypothesis _).trans (grows graph first)

theorem grownFrom_mention (graph : ClassGraph) (name : BinaryName) :
    (graph.mention name).GrownFrom graph := by
  rcases graph.nodes_mention name with ⟨same, _⟩ | added
  · rw [GrownFrom, names, names, same]
  · rw [GrownFrom, names, names, added, List.map_append]
    exact List.prefix_append _ _

theorem names_declare
    (graph : ClassGraph)
    (name : BinaryName)
    (superclass : Option BinaryName)
    (interfaces : List BinaryName)
    (flags : ClassFlags) :
    (graph.declare name superclass interfaces flags).names =
      ((superclass.toList ++ interfaces).foldl mention (graph.mention name)).names :=
  names_modify _ name (·.declare superclass interfaces flags) fun _ => rfl

theorem grownFrom_declare
    (graph : ClassGraph)
    (name : BinaryName)
    (superclass : Option BinaryName)
    (interfaces : List BinaryName)
    (flags : ClassFlags) :
    (graph.declare name superclass interfaces flags).GrownFrom graph := by
  rw [GrownFrom, names_declare]
  exact (grownFrom_foldl grownFrom_mention (graph.mention name) _).trans
    (graph.grownFrom_mention name)

theorem grownFrom_apply (graph : ClassGraph) (operation : Operation) :
    (graph.apply operation).GrownFrom graph := by
  cases operation with
  | mention name => exact graph.grownFrom_mention name
  | declare name superclass interfaces flags =>
      exact graph.grownFrom_declare name superclass interfaces flags
  | withLibrary =>
      rw [apply, ClassGraph.withLibrary]
      exact grownFrom_foldl (fun later declaration => later.grownFrom_declare _ _ _ _) _ _

theorem grownFrom_take (operations : List Operation) (count : Nat) :
    (build operations).GrownFrom (build (operations.take count)) := by
  have whole : build operations =
      (operations.drop count).foldl apply (build (operations.take count)) := by
    rw [build, build, ← List.foldl_append, List.take_append_drop]
  rw [whole]
  exact grownFrom_foldl grownFrom_apply _ _

/-- The class on which an operation is. -/
def Operation.subject? : Operation → Option BinaryName
  | .mention name | .declare name _ _ _ => some name
  | .withLibrary => none

/-- An operation on a class leaves it in the graph. -/
theorem mem_names_apply
    {operation : Operation}
    {name : BinaryName}
    (subject_eq : operation.subject? = some name) :
    name ∈ (graph.apply operation).names := by
  have mentioned : name ∈ (graph.mention name).names := names_mention.mpr (Or.inl rfl)
  cases operation with
  | mention other =>
      obtain rfl := Option.some.inj subject_eq
      exact mentioned
  | declare other superclass interfaces flags =>
      obtain rfl := Option.some.inj subject_eq
      rw [apply, names_declare]
      exact (names_foldl_mention _ _ _).mpr (Or.inr mentioned)
  | withLibrary => cases subject_eq

/-- The handle that the operation at a position gives: the one that its class has right after
it. -/
def handleAt? (operations : List Operation) (position : Nat) : Option ClassHandle := do
  let operation ← operations[position]?
  let name ← operation.subject?
  (build (operations.take (position + 1))).handle? name

/-- The handle of an operation is the one that its class has after all operations. -/
theorem handleAt?_eq_some
    {operations : List Operation}
    {position : Nat}
    {name : BinaryName}
    (subject_eq : operations[position]?.bind Operation.subject? = some name) :
    name ∈ (build operations).names ∧
      handleAt? operations position = some ⟨(build operations).names.idxOf name⟩ := by
  obtain ⟨operation, found, subject_eq⟩ := Option.bind_eq_some_iff.mp subject_eq
  have applied : build (operations.take (position + 1)) =
      (build (operations.take position)).apply operation := by
    rw [build, build, List.take_add_one, found, Option.toList_some, List.foldl_append]
    rfl
  have present : name ∈ (build (operations.take (position + 1))).names :=
    applied ▸ mem_names_apply subject_eq
  have grown := grownFrom_take operations (position + 1)
  refine ⟨grown.subset present, ?_⟩
  rw [handleAt?, found, ← grown.idxOf_eq_of_mem present]
  simp only [Option.bind_eq_bind, Option.bind_some, subject_eq]
  exact handle?_eq_some present

/-! ## The order of operations -/

/-- The search for a class looks at nothing but the declarations. -/
theorem IsClosed.isSubclass_congr
    {other : ClassGraph}
    (closed : graph.IsClosed)
    (otherClosed : other.IsClosed)
    (same : graph.lookup = other.lookup)
    (sub super : BinaryName) :
    graph.isSubclass sub super = other.isSubclass sub super := by
  have edges_eq : graph.ascend (graph.mayBeInterface super) =
      other.ascend (other.mayBeInterface super) := by
    funext name
    rw [closed.ascend_eq, otherClosed.ascend_eq, mayBeInterface, mayBeInterface, same]
  rw [Bool.eq_iff_iff, closed.isSubclass_iff_leads, otherClosed.isSubclass_iff_leads, edges_eq]

/-- A graph means the declarations by which it has been built. -/
structure MeansDeclarations (operations : List Operation) : Prop where
  /-- Nothing is known of the classes that have never been declared, and of no others. -/
  lookup_eq_none_iff : ∀ name, (build operations).lookup name = none ↔
    ∀ declaration ∈ declarationsIn operations, declaration.name ≠ name
  /-- What is known of a class is what its declarations say. -/
  lookup_eq : ∀ name, (build operations).lookup name =
    Library.recordOf? (declarationsOf name (declarationsIn operations))
  /-- Every operation on a class gives a handle, and the handles tell the classes apart. -/
  handles : ∀ position other name otherName,
    operations[position]?.bind Operation.subject? = some name →
    operations[other]?.bind Operation.subject? = some otherName →
    ∃ handle otherHandle, handleAt? operations position = some handle ∧
      handleAt? operations other = some otherHandle ∧ (handle = otherHandle ↔ name = otherName)
  /-- If no class is declared twice then the order of the operations does not matter. -/
  permutes : ((declarationsIn operations).map (·.name)).Nodup →
    ∀ others, operations.Perm others → ∀ name,
      (build others).lookup name = (build operations).lookup name ∧
      ∀ super, (build others).isSubclass name super = (build operations).isSubclass name super

/-- However a graph has been built by mentioning and declaring classes, it means its
declarations. -/
theorem meansDeclarations_build (operations : List Operation) : MeansDeclarations operations where
  lookup_eq_none_iff name := by
    rw [lookup_build, Library.recordOf?, Option.map_eq_none_iff, List.getLast?_eq_none_iff,
      declarationsOf, List.filter_eq_nil_iff]
    simp
  lookup_eq := lookup_build operations
  handles position other name otherName subject_eq otherSubject_eq := by
    obtain ⟨present, handle_eq⟩ := handleAt?_eq_some subject_eq
    obtain ⟨_, otherHandle_eq⟩ := handleAt?_eq_some otherSubject_eq
    refine ⟨_, _, handle_eq, otherHandle_eq, ?_⟩
    rw [ClassHandle.mk.injEq]
    exact List.idxOf_inj present
  permutes once others perm := by
    have permIn : (declarationsIn operations).Perm (declarationsIn others) := perm.flatMap_right _
    have same : (build others).lookup = (build operations).lookup := by
      funext name
      rw [lookup_build, lookup_build, declarationsOf_perm once permIn]
    intro name
    exact ⟨congrFun same name, fun super =>
      (isClosed_build others).isSubclass_congr (isClosed_build operations) same name super⟩

/-- The two classes and two interfaces that are above each other are known just as well if
they are declared from the last to the first, and the interface that is mentioned before it is
declared has one handle. -/
theorem meansDeclarations_build_knotted :
    ((declarationsIn Knotted.operations).map (·.name)).Nodup ∧
      (∀ name, (build Knotted.operations.reverse).lookup name =
        (build Knotted.operations).lookup name) ∧
      (build Knotted.operations.reverse).isSubclass Knotted.second Knotted.walker =
        (build Knotted.operations).isSubclass Knotted.second Knotted.walker ∧
      ∃ handle otherHandle, handleAt? Knotted.operations 0 = some handle ∧
        handleAt? Knotted.operations 4 = some otherHandle ∧ handle = otherHandle := by
  have means := meansDeclarations_build Knotted.operations
  have once : ((declarationsIn Knotted.operations).map (·.name)).Nodup := by decide +kernel
  have permuted := means.permutes once _ Knotted.operations.reverse_perm.symm
  obtain ⟨handle, otherHandle, handle_eq, otherHandle_eq, same⟩ :=
    means.handles 0 4 Knotted.walker Knotted.walker rfl rfl
  exact ⟨once, fun name => (permuted name).1, (permuted Knotted.second).2 Knotted.walker,
    handle, otherHandle, handle_eq, otherHandle_eq, same.mpr rfl⟩

end ClassGraph
end StackMaps
