import StackMaps.Body.Printer
import StackMaps.Method

/-!
# Writing listings

Classes are separated by blank lines, and a blank line stands in front of every
method.
-/

namespace StackMaps

/-- A directive with flags behind it. -/
def directiveText (directive : String) (keywords : List String) : String :=
  directive ++ String.join (keywords.map (" " ++ ·))

/-- The lines of a method. -/
def Method.text (method : Method) : String :=
  directiveText ".method" method.flags.keywords ++
    s!" {method.name.text}{method.descriptor.render}\n" ++
    (match method.body with
      | some body => body.text
      | none => "") ++
    ".end method\n"

/-- The lines of a class. -/
def ClassDefinition.text (definition : ClassDefinition) : String :=
  directiveText ".class" definition.flags.keywords ++ s!" {definition.name.text}\n" ++
    (match definition.superclass with
      | some name => s!".super {name.text}\n"
      | none => "") ++
    String.join (definition.interfaces.map fun name => s!".implements {name.text}\n") ++
    String.join (definition.methods.map fun method => "\n" ++ method.text)

/-- The lines of a listing. -/
def Listing.text (listing : Listing) : String :=
  String.intercalate "\n" (listing.classes.map ClassDefinition.text)

end StackMaps
