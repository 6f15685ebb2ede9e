import StackMaps.Hierarchy.Graph

/-!
# Library classes

The classes of the standard library that bodies mention most: the root class,
texts, boxed numbers, the types of constants, the common exceptions and the
interfaces of arrays.
-/

namespace StackMaps
namespace Library

/-- The flags of an ordinary class. -/
def plainClass : ClassFlags := ⟨0x0021⟩

/-- The flags of a class without subclasses. -/
def finalClass : ClassFlags := ⟨0x0031⟩

/-- The flags of a class without direct instances. -/
def abstractClass : ClassFlags := ⟨0x0421⟩

/-- The flags of an interface. -/
def plainInterface : ClassFlags := ⟨0x0601⟩

/-- A class of the library with its supertypes and flags. -/
structure Declaration where
  name : BinaryName
  superclass : Option BinaryName
  interfaces : List BinaryName
  flags : ClassFlags

/-- The name `java/lang/Comparable`. -/
def comparable : BinaryName := ⟨"java/lang/Comparable", by decide⟩

/-- The name `java/lang/CharSequence`. -/
def charSequence : BinaryName := ⟨"java/lang/CharSequence", by decide⟩

/-- The name `java/lang/StringBuilder`. -/
def stringBuilder : BinaryName := ⟨"java/lang/StringBuilder", by decide⟩

/-- The name `java/lang/Number`. -/
def number : BinaryName := ⟨"java/lang/Number", by decide⟩

/-- The name `java/lang/Integer`. -/
def integer : BinaryName := ⟨"java/lang/Integer", by decide⟩

/-- The name `java/lang/Float`. -/
def float : BinaryName := ⟨"java/lang/Float", by decide⟩

/-- The name `java/lang/Long`. -/
def long : BinaryName := ⟨"java/lang/Long", by decide⟩

/-- The name `java/lang/Double`. -/
def double : BinaryName := ⟨"java/lang/Double", by decide⟩

/-- The name `java/lang/Void`. -/
def void : BinaryName := ⟨"java/lang/Void", by decide⟩

/-- The name `java/lang/Boolean`. -/
def boolean : BinaryName := ⟨"java/lang/Boolean", by decide⟩

/-- The name `java/lang/invoke/CallSite`. -/
def callSite : BinaryName := ⟨"java/lang/invoke/CallSite", by decide⟩

/-- The name `java/lang/Error`. -/
def error : BinaryName := ⟨"java/lang/Error", by decide⟩

/-- The name `java/lang/Exception`. -/
def exception : BinaryName := ⟨"java/lang/Exception", by decide⟩

/-- The name `java/lang/RuntimeException`. -/
def runtimeException : BinaryName := ⟨"java/lang/RuntimeException", by decide⟩

/-- The name `java/lang/ArithmeticException`. -/
def arithmeticException : BinaryName := ⟨"java/lang/ArithmeticException", by decide⟩

/-- The name `java/lang/IllegalArgumentException`. -/
def illegalArgumentException : BinaryName :=
  ⟨"java/lang/IllegalArgumentException", by decide⟩

/-- The name `java/lang/IllegalStateException`. -/
def illegalStateException : BinaryName := ⟨"java/lang/IllegalStateException", by decide⟩

/-- The name `java/lang/NullPointerException`. -/
def nullPointerException : BinaryName := ⟨"java/lang/NullPointerException", by decide⟩

/-- The name `java/lang/ClassCastException`. -/
def classCastException : BinaryName := ⟨"java/lang/ClassCastException", by decide⟩

/-- The name `java/lang/IndexOutOfBoundsException`. -/
def indexOutOfBoundsException : BinaryName :=
  ⟨"java/lang/IndexOutOfBoundsException", by decide⟩

/-- The name `java/lang/ArrayIndexOutOfBoundsException`. -/
def arrayIndexOutOfBoundsException : BinaryName :=
  ⟨"java/lang/ArrayIndexOutOfBoundsException", by decide⟩

/-- The name `java/io/IOException`. -/
def ioException : BinaryName := ⟨"java/io/IOException", by decide⟩

/-- The classes of the library. -/
def declarations : List Declaration := [
  ⟨.object, none, [], plainClass⟩,
  ⟨.cloneable, some .object, [], plainInterface⟩,
  ⟨comparable, some .object, [], plainInterface⟩,
  ⟨charSequence, some .object, [], plainInterface⟩,
  ⟨.string, some .object, [.serializable, comparable, charSequence], finalClass⟩,
  ⟨stringBuilder, some .object, [.serializable, charSequence], finalClass⟩,
  ⟨.classObject, some .object, [.serializable], finalClass⟩,
  ⟨number, some .object, [.serializable], abstractClass⟩,
  ⟨integer, some number, [comparable], finalClass⟩,
  ⟨float, some number, [comparable], finalClass⟩,
  ⟨long, some number, [comparable], finalClass⟩,
  ⟨double, some number, [comparable], finalClass⟩,
  ⟨void, some .object, [], finalClass⟩,
  ⟨boolean, some .object, [.serializable, comparable], finalClass⟩,
  ⟨.methodType, some .object, [.serializable], finalClass⟩,
  ⟨.methodHandle, some .object, [], abstractClass⟩,
  ⟨callSite, some .object, [], abstractClass⟩,
  ⟨.throwable, some .object, [.serializable], plainClass⟩,
  ⟨error, some .throwable, [], plainClass⟩,
  ⟨exception, some .throwable, [], plainClass⟩,
  ⟨runtimeException, some exception, [], plainClass⟩,
  ⟨arithmeticException, some runtimeException, [], plainClass⟩,
  ⟨illegalArgumentException, some runtimeException, [], plainClass⟩,
  ⟨illegalStateException, some runtimeException, [], plainClass⟩,
  ⟨nullPointerException, some runtimeException, [], plainClass⟩,
  ⟨classCastException, some runtimeException, [], plainClass⟩,
  ⟨indexOutOfBoundsException, some runtimeException, [], plainClass⟩,
  ⟨arrayIndexOutOfBoundsException, some indexOutOfBoundsException, [], plainClass⟩,
  ⟨.serializable, some .object, [], plainInterface⟩,
  ⟨ioException, some exception, [], plainClass⟩]

end Library

/-- Declare the classes of the library. -/
def ClassGraph.withLibrary (graph : ClassGraph) : ClassGraph :=
  Library.declarations.foldl
    (fun graph declaration =>
      graph.declare declaration.name declaration.superclass declaration.interfaces
        declaration.flags)
    graph

end StackMaps
