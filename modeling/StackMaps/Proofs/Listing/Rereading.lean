import StackMaps.Proofs.Access.Keywords
import StackMaps.Proofs.Body.Rereading

/-!
# Listings read back

The lines of methods and classes are read into the methods and classes from which they
were written, up to what is lost about the bodies. The lines of a listing therefore give
the listing that has been written.
-/

namespace StackMaps
namespace Listing

open Text

variable {state : ParseState} {line : Nat} {operands : List Char}

/-- All classes that have been read, the latest first. -/
def finished (state : ParseState) : List ClassDefinition :=
  (state.current.map finishClass).toList ++ state.classes

/-! ## Directives -/

theorem readLine_class (isBreak : IsBreak operands) :
    readLine line state (".class".toList ++ operands) =
      atLine line (startClass state operands) := by
  unfold readLine
  rw [splitWord_append (by decide : IsWord ".class".toList).solid isBreak]
  rfl

theorem readLine_super (isBreak : IsBreak operands) :
    readLine line state (".super".toList ++ operands) =
      atLine line (extendHeader state ".super" operands fun definition name =>
        { definition with superclass := some name }) := by
  unfold readLine
  rw [splitWord_append (by decide : IsWord ".super".toList).solid isBreak]
  rfl

theorem readLine_implements (isBreak : IsBreak operands) :
    readLine line state (".implements".toList ++ operands) =
      atLine line (extendHeader state ".implements" operands fun definition name =>
        { definition with interfaces := definition.interfaces ++ [name] }) := by
  unfold readLine
  rw [splitWord_append (by decide : IsWord ".implements".toList).solid isBreak]
  rfl

theorem readLine_method (isBreak : IsBreak operands) :
    readLine line state (".method".toList ++ operands) =
      atLine line (startMethod state operands) := by
  unfold readLine
  rw [splitWord_append (by decide : IsWord ".method".toList).solid isBreak]
  rfl

theorem readLine_end (isBreak : IsBreak operands) :
    readLine line state (".end".toList ++ operands) = endMethod line state operands := by
  unfold readLine
  rw [splitWord_append (by decide : IsWord ".end".toList).solid isBreak]
  rfl

/-- A directive is a statement if only its last operand can have quotes. -/
theorem isStatement_directiveLine
    {directive last : String}
    {words : List String}
    (isWord : IsWord directive.toList)
    (isPlain : IsPlain directive.toList)
    (areWords : AreWords words)
    (plainWords : ∀ word ∈ words, IsPlain word.toList)
    (isLast : IsStatement last.toList) :
    IsStatement (directiveLine directive (words ++ [last])) := by
  have front := isStatement_of_plain isWord isPlain areWords plainWords
  rw [directiveLine_concat]
  refine ⟨front.isPhrase.append_cons isLast.isPhrase, ?_⟩
  have plain := (isPlain.append (isPlain_spacedStrings plainWords)).append
    (show IsPlain [' '] by decide)
  rw [directiveLine, List.append_cons]
  exact plain.isClear_append_iff.mpr isLast.isClear

end Listing

/-! ## Methods -/

namespace Method

open Text Listing

/-- What the header of a method needs to be read again. -/
structure CanRereadHeader
    (name : UnqualifiedName)
    (descriptor : MethodDescriptor)
    (flags : MethodFlags) : Prop where
  flags : .ofBits flags.bits = flags
  isWord : IsWord (name.text ++ descriptor.render).toList
  isClear : IsClear .start (name.text ++ descriptor.render).toList
  name : ∀ character ∈ name.text.toList, (character != '(') = true
  descriptor : readDescriptor MethodDescriptor.parse descriptor.render = .ok descriptor

/-- What a method needs to be read again. -/
structure CanReread (method : Method) : Prop where
  header : CanRereadHeader method.name method.descriptor method.flags
  bodiless : method.flags.isBodiless = method.body.isNone
  body : ∀ body ∈ method.body, body.CanReread

/-- The method without a body when it is started. -/
def opened (method : Method) : OpenMethod :=
  { name := method.name
    descriptor := method.descriptor
    flags := method.flags
    instructions := []
    ranges := []
    labels := .empty
    maxStack := 0
    maxLocals := 0 }

variable {method : Method} {state : ParseState} {start line : Nat}

theorem isStatement_header
    (canReread : CanRereadHeader method.name method.descriptor method.flags) :
    IsStatement (directiveLine ".method" (method.flags.keywords ++ [method.signature])) :=
  isStatement_directiveLine (by decide) (by decide)
    (isTable_methodFlagTable.isWord_keywords _) (isTable_methodFlagTable.isPlain_keywords _)
    ⟨canReread.isWord.isPhrase, canReread.isClear⟩

theorem readNumbered_header
    {definition : ClassDefinition}
    (canReread : CanRereadHeader method.name method.descriptor method.flags)
    (inClass : state.current = some definition)
    (noMethod : state.method = none) :
    readNumbered state
        (directiveLine ".method" (method.flags.keywords ++ [method.signature]), line) =
      .ok { state with method := some method.opened } := by
  have areWords : AreWords (method.flags.keywords ++ [method.signature]) :=
    List.forall_mem_append.mpr ⟨isTable_methodFlagTable.isWord_keywords _,
      List.forall_mem_singleton.mpr canReread.isWord⟩
  have characters : method.signature.toList =
      method.name.text.toList ++ method.descriptor.descriptor := by
    rw [signature, String.toList_append, MethodDescriptor.render, String.toList_ofList]
  have parenthesis : method.descriptor.descriptor.takeWhile (· != '(') = [] ∧
      method.descriptor.descriptor.dropWhile (· != '(') = method.descriptor.descriptor := ⟨rfl, rfl⟩
  have front : method.signature.toList.takeWhile (· != '(') = method.name.text.toList := by
    rw [characters, List.takeWhile_append_of_pos canReread.name, parenthesis.1, List.append_nil]
  have back : method.signature.toList.dropWhile (· != '(') = method.descriptor.descriptor := by
    rw [characters, List.dropWhile_append_of_pos canReread.name, parenthesis.2]
  have reads : startMethod state (spacedStrings (method.flags.keywords ++ [method.signature])) =
      .ok { state with method := some method.opened } := by
    unfold startMethod
    simp only [areWords.wordStrings_eq, inClass, noMethod, Option.isNone_some, Option.isSome_none,
      Bool.false_eq_true, if_false, List.getLast?_concat, List.dropLast_concat, front, back,
      readFlags_methodKeywords canReread.flags, String.ofList_toList, readUnqualifiedName_text]
    change (do
      let descriptor ← readDescriptor MethodDescriptor.parse method.descriptor.render
      pure
        { state with
          current := some definition
          method := some { method.opened with descriptor } } : Reading ParseState) = _
    rw [canReread.descriptor]
    rfl
  rw [readNumbered_statement (isStatement_header canReread), directiveLine,
    readLine_method (isBreak_spacedStrings _), reads]
  rfl

/-- A method is ended if all of its labels are placed. -/
theorem readNumbered_footer
    {opened : OpenMethod}
    (placed : opened.labels.unplaced? = none)
    (bodiless : opened.flags.isBodiless = true → opened.instructions = []) :
    readNumbered { state with method := some opened } (directiveLine ".end" ["method"], line) =
      .ok { state with
        current := state.current.map fun definition =>
          { definition with
            methods :=
              { name := opened.name
                descriptor := opened.descriptor
                flags := opened.flags
                body := if opened.flags.isBodiless then none else some opened.body } ::
                definition.methods }
        method := none } := by
  have isStatement : IsStatement (directiveLine ".end" ["method"]) :=
    ⟨isStatement_of_plain (by decide) (by decide) (by decide) (by decide) |>.isPhrase, by decide⟩
  rw [readNumbered_statement isStatement, directiveLine, readLine_end (isBreak_spacedStrings _),
    endMethod]
  have isEnd : ¬String.ofList (trim (spacedStrings ["method"])) ≠ "method" := by decide +kernel
  rw [if_neg isEnd]
  dsimp only
  rw [placed]
  cases flagged : opened.flags.isBodiless with
  | true =>
      rw [bodiless flagged]
      rfl
  | false => rfl

/-- The lines of a method are read as a method of the class that is being read. -/
theorem CanReread.readLines
    {definition : ClassDefinition}
    (canReread : method.CanReread)
    (inClass : state.current = some definition)
    (noMethod : state.method = none) :
    Listing.readLines state start method.lines =
      .ok { state with
        current := some
          { definition with methods := method.restored :: definition.methods } } := by
  rw [lines, readLines_cons_of_eq_ok (readNumbered_header canReread.header inClass noMethod)]
  have flagged := canReread.bodiless
  cases hasBody : method.body with
  | none =>
      rw [hasBody, Option.isNone_none] at flagged
      have footer := @readNumbered_footer state (start + 1) method.opened
        LabelTable.unplaced?_empty fun _ => rfl
      have restored : method.restored = { method with body := none } := by
        rw [Method.restored, hasBody]
        rfl
      rw [Option.elim, List.nil_append, readLines_cons_of_eq_ok footer, inClass, restored,
        readLines_nil]
      simp only [opened, flagged, if_true, Option.map_some, noMethod]
  | some body =>
      rw [hasBody, Option.isNone_some] at flagged
      obtain ⟨labels, reads, next, placed⟩ := @Body.CanReread.readLines body state
        method.opened (start + 1) (canReread.body body hasBody) rfl rfl rfl
      have footer := @readNumbered_footer state (start + 1 + body.lines.length)
        (body.finishing method.opened labels) placed fun unwanted =>
          absurd (flagged.symm.trans unwanted) Bool.false_ne_true
      have restored : method.restored = { method with body := some body.restored } := by
        rw [Method.restored, hasBody]
        rfl
      rw [Option.elim, readLines_append_of_eq_ok reads, readLines_cons_of_eq_ok footer, inClass,
        restored, readLines_nil, Body.body_finishing next]
      simp only [Body.finishing, opened, flagged, Bool.false_eq_true, if_false, Option.map_some,
        noMethod]

theorem CanReread.single (canReread : method.CanReread) : ∀ line ∈ method.lines, '\n' ∉ line := by
  rw [lines, List.forall_mem_cons, List.forall_mem_append, List.forall_mem_singleton]
  refine ⟨(isStatement_header canReread.header).isPhrase.single, fun line present => ?_, by decide⟩
  cases hasBody : method.body with
  | none =>
      rw [hasBody] at present
      exact absurd present List.not_mem_nil
  | some body =>
      rw [hasBody] at present
      exact (canReread.body body hasBody).single line present

end Method

/-! ## Classes -/

namespace ClassDefinition

open Text Listing

/-- What a class needs to be read again. Only the root class has no superclass. -/
structure CanReread (definition : ClassDefinition) : Prop where
  flags : .ofBits definition.flags.bits = definition.flags
  isWord : IsWord definition.name.text.toList
  isClear : IsClear .start definition.name.text.toList
  superclass : ∀ name ∈ definition.superclass, IsStatement name.text.toList
  isRoot : definition.superclass = none → definition.name = .object
  interfaces : ∀ name ∈ definition.interfaces, IsStatement name.text.toList
  methods : ∀ method ∈ definition.methods, method.CanReread

/-- The class when it is started. -/
def opened (definition : ClassDefinition) : ClassDefinition :=
  { name := definition.name
    superclass := if definition.name = .object then none else some .object
    interfaces := []
    flags := definition.flags
    methods := [] }

variable {definition current : ClassDefinition} {state : ParseState} {start line : Nat}

theorem isStatement_header (canReread : definition.CanReread) :
    IsStatement (directiveLine ".class" (definition.flags.keywords ++ [definition.name.text])) :=
  isStatement_directiveLine (by decide) (by decide)
    (isTable_classFlagTable.isWord_keywords _) (isTable_classFlagTable.isPlain_keywords _)
    ⟨canReread.isWord.isPhrase, canReread.isClear⟩

theorem readNumbered_header
    (canReread : definition.CanReread)
    (noMethod : state.method = none) :
    readNumbered state
        (directiveLine ".class" (definition.flags.keywords ++ [definition.name.text]), line) =
      .ok { state with
        classes := finished state
        current := some definition.opened } := by
  have areWords : AreWords (definition.flags.keywords ++ [definition.name.text]) :=
    List.forall_mem_append.mpr ⟨isTable_classFlagTable.isWord_keywords _,
      List.forall_mem_singleton.mpr canReread.isWord⟩
  have reads : startClass state
      (spacedStrings (definition.flags.keywords ++ [definition.name.text])) =
      .ok { state with
        classes := finished state
        current := some definition.opened } := by
    unfold startClass
    simp only [areWords.wordStrings_eq, noMethod, Option.isSome_none, Bool.false_eq_true, if_false,
      List.getLast?_concat, List.dropLast_concat, readFlags_classKeywords canReread.flags,
      readBinaryName_text]
    rfl
  rw [readNumbered_statement (isStatement_header canReread), directiveLine,
    readLine_class (isBreak_spacedStrings _), reads]
  rfl

/-- The name behind a directive is added to the class that is being read. -/
theorem extendHeader_name
    {name : BinaryName}
    (isPhrase : IsPhrase name.text.toList)
    (inClass : state.current = some current)
    (noMethod : state.method = none)
    (directive : String)
    (extend : ClassDefinition → BinaryName → ClassDefinition) :
    extendHeader state directive (spacedStrings [name.text]) extend =
      .ok { state with current := some (extend current name) } := by
  have operand : trim (spacedStrings [name.text]) = name.text.toList := by
    rw [spacedStrings_cons, spacedStrings_nil, List.append_nil,
      trim_cons_of_isBlank (by decide), isPhrase.trim_eq]
  unfold extendHeader
  rw [operand, String.ofList_toList, readBinaryName_text, inClass, noMethod]
  rfl

theorem isStatement_name
    {directive : String}
    {name : BinaryName}
    (isWord : IsWord directive.toList)
    (isPlain : IsPlain directive.toList)
    (isStatement : IsStatement name.text.toList) :
    IsStatement (directiveLine directive [name.text]) :=
  @isStatement_directiveLine _ _ [] isWord isPlain (by decide) (by decide) isStatement

theorem readNumbered_super
    {name : BinaryName}
    (isStatement : IsStatement name.text.toList)
    (inClass : state.current = some current)
    (noMethod : state.method = none) :
    readNumbered state (directiveLine ".super" [name.text], line) =
      .ok { state with current := some { current with superclass := some name } } := by
  rw [readNumbered_statement (isStatement_name (by decide) (by decide) isStatement), directiveLine,
    readLine_super (isBreak_spacedStrings _),
    extendHeader_name isStatement.isPhrase inClass noMethod]
  rfl

theorem readNumbered_implements
    {name : BinaryName}
    (isStatement : IsStatement name.text.toList)
    (inClass : state.current = some current)
    (noMethod : state.method = none) :
    readNumbered state (directiveLine ".implements" [name.text], line) =
      .ok { state with
        current := some { current with interfaces := current.interfaces ++ [name] } } := by
  rw [readNumbered_statement (isStatement_name (by decide) (by decide) isStatement), directiveLine,
    readLine_implements (isBreak_spacedStrings _),
    extendHeader_name isStatement.isPhrase inClass noMethod]
  rfl

/-- The interfaces of a class are read in their order. -/
theorem readLines_interfaces
    {names : List BinaryName}
    (areStatements : ∀ name ∈ names, IsStatement name.text.toList)
    (inClass : state.current = some current)
    (noMethod : state.method = none) :
    readLines state start (names.map fun name => directiveLine ".implements" [name.text]) =
      .ok { state with
        current := some { current with interfaces := current.interfaces ++ names } } := by
  induction names generalizing state current start with
  | nil => simp [← inClass]
  | cons name names hypothesis =>
      obtain ⟨isStatement, others⟩ := List.forall_mem_cons.mp areStatements
      rw [List.map_cons,
        readLines_cons_of_eq_ok (readNumbered_implements isStatement inClass noMethod)]
      have reads := @hypothesis { current with interfaces := current.interfaces ++ [name] }
        { state with
          current := some { current with interfaces := current.interfaces ++ [name] } }
        (start + 1) others rfl noMethod
      rw [reads, List.append_assoc]
      rfl

/-- The methods of a class are read in their order, the latest first. -/
theorem readLines_methods
    {methods : List Method}
    (canReread : ∀ method ∈ methods, method.CanReread)
    (inClass : state.current = some current)
    (noMethod : state.method = none) :
    readLines state start (methods.flatMap fun method => [] :: method.lines) =
      .ok { state with
        current := some
          { current with
            methods := (methods.map Method.restored).reverse ++ current.methods } } := by
  induction methods generalizing state current start with
  | nil => simp [← inClass]
  | cons method methods hypothesis =>
      obtain ⟨canRereadFirst, others⟩ := List.forall_mem_cons.mp canReread
      rw [List.flatMap_cons, List.cons_append, readLines_cons_of_eq_ok readNumbered_nil,
        readLines_append_of_eq_ok (canRereadFirst.readLines inClass noMethod)]
      have reads := @hypothesis { current with methods := method.restored :: current.methods }
        { state with
          current := some { current with methods := method.restored :: current.methods } }
        (start + 1 + method.lines.length) others rfl noMethod
      rw [reads, List.map_cons, List.reverse_cons, List.append_assoc]
      rfl

/-- The class when its interfaces come next. -/
def headed (definition : ClassDefinition) : ClassDefinition :=
  { definition with interfaces := [], methods := [] }

/-- The superclass of a class is read if there is one, and there is none for a class that
has none from the start. -/
theorem readLines_superclass
    (canReread : definition.CanReread)
    (inClass : state.current = some definition.opened)
    (noMethod : state.method = none) :
    readLines state start
        (definition.superclass.toList.map fun name => directiveLine ".super" [name.text]) =
      .ok { state with current := some definition.headed } := by
  cases isSuper : definition.superclass with
  | none =>
      have unchanged : definition.opened = definition.headed := by
        rw [opened, headed, if_pos (canReread.isRoot isSuper), isSuper]
      simp [← unchanged, ← inClass]
  | some name =>
      have changed : { definition.opened with superclass := some name } = definition.headed := by
        rw [headed, isSuper]
        rfl
      have reads := @readNumbered_super _ _ start _
        (canReread.superclass name isSuper) inClass noMethod
      rw [changed] at reads
      exact readLines_cons_of_eq_ok reads []

/-- The lines of a class are read as a class behind the others. -/
theorem CanReread.readLines
    (canReread : definition.CanReread)
    (noMethod : state.method = none) :
    Listing.readLines state start definition.lines =
      .ok { state with
        classes := finished state
        current := some { definition with
          methods := (definition.methods.map Method.restored).reverse } } := by
  have interfaces := fun place => @readLines_interfaces _
    { state with classes := finished state, current := some definition.headed } place _
    canReread.interfaces rfl noMethod
  have methods := fun place => @readLines_methods _
    { state with
      classes := finished state
      current := some { definition with methods := [] } } place _
    canReread.methods rfl noMethod
  rw [lines, readLines_cons_of_eq_ok (readNumbered_header canReread noMethod),
    List.append_assoc,
    readLines_append_of_eq_ok
      (@readLines_superclass _ { state with classes := finished state, current := _ } _
        canReread rfl noMethod),
    readLines_append_of_eq_ok (interfaces _)]
  refine (methods _).trans ?_
  rw [List.append_nil]

theorem CanReread.single (canReread : definition.CanReread) :
    ∀ line ∈ definition.lines, '\n' ∉ line := by
  rw [lines, List.forall_mem_cons, List.forall_mem_append, List.forall_mem_append]
  refine ⟨(isStatement_header canReread).isPhrase.single,
    ⟨fun line present => ?_, fun line present => ?_⟩, fun line present => ?_⟩
  · obtain ⟨name, isSuper, rfl⟩ := List.mem_map.mp present
    exact (isStatement_name (by decide) (by decide)
      (canReread.superclass name (Option.mem_toList.mp isSuper))).isPhrase.single
  · obtain ⟨name, isListed, rfl⟩ := List.mem_map.mp present
    exact (isStatement_name (by decide) (by decide)
      (canReread.interfaces name isListed)).isPhrase.single
  · obtain ⟨method, isListed, isLine⟩ := List.mem_flatMap.mp present
    rcases List.mem_cons.mp isLine with rfl | inMethod
    · exact List.not_mem_nil
    · exact (canReread.methods method isListed).single line inMethod

end ClassDefinition

/-! ## Listings -/

namespace Listing

open Text

/-- What a listing needs to be read again. -/
def CanReread (listing : Listing) : Prop :=
  ∀ definition ∈ listing.classes, definition.CanReread

variable {listing : Listing} {state : ParseState} {start : Nat}

/-- Classes behind others are read in their order. -/
theorem readLines_separatedLines
    {classes : List ClassDefinition}
    (canReread : ∀ definition ∈ classes, definition.CanReread)
    (noMethod : state.method = none) :
    ∃ after, readLines state start (separatedLines classes) = .ok after ∧ after.method = none ∧
      finished after = (classes.map ClassDefinition.restored).reverse ++ finished state := by
  induction classes generalizing state start with
  | nil => exact ⟨state, rfl, noMethod, rfl⟩
  | cons definition classes hypothesis =>
      obtain ⟨canRereadFirst, others⟩ := List.forall_mem_cons.mp canReread
      have reads := @ClassDefinition.CanReread.readLines _ state (start + 1) canRereadFirst noMethod
      obtain ⟨after, readsOthers, ended, classesEq⟩ := @hypothesis
        { state with
          classes := finished state
          current := some { definition with
            methods := (definition.methods.map Method.restored).reverse } }
        (start + 1 + definition.lines.length) others noMethod
      refine ⟨after, ?_, ended, ?_⟩
      · rw [separatedLines, List.flatMap_cons, List.cons_append,
          readLines_cons_of_eq_ok readNumbered_nil, readLines_append_of_eq_ok reads]
        exact readsOthers
      · rw [classesEq, List.map_cons, List.reverse_cons, List.append_assoc]
        simp [finished, finishClass, ClassDefinition.restored]

theorem CanReread.single (canReread : listing.CanReread) : ∀ line ∈ listing.lines, '\n' ∉ line := by
  obtain ⟨classes⟩ := listing
  have each : ∀ definition ∈ classes, ∀ line ∈ definition.lines, '\n' ∉ line :=
    fun definition isListed => (canReread definition isListed).single
  cases classes with
  | nil => exact fun line absent => absurd absent List.not_mem_nil
  | cons first others =>
      obtain ⟨singleFirst, singleOthers⟩ := List.forall_mem_cons.mp each
      refine List.forall_mem_append.mpr ⟨singleFirst, fun line present => ?_⟩
      obtain ⟨definition, isListed, isLine⟩ := List.mem_flatMap.mp present
      rcases List.mem_cons.mp isLine with rfl | inClass
      · exact List.not_mem_nil
      · exact singleOthers definition isListed line inClass

/-- The lines of a listing are read as its classes. There is no blank line in front of the
first one. -/
theorem CanReread.readLines (canReread : listing.CanReread) :
    ∃ after, Listing.readLines .start 1 listing.lines = .ok after ∧ after.method = none ∧
      finished after = listing.restored.classes.reverse := by
  obtain ⟨classes⟩ := listing
  cases classes with
  | nil => exact ⟨.start, rfl, rfl, rfl⟩
  | cons first others =>
      obtain ⟨canRereadFirst, canRereadOthers⟩ := List.forall_mem_cons.mp canReread
      have reads := @ClassDefinition.CanReread.readLines _ .start 1 canRereadFirst rfl
      obtain ⟨after, readsOthers, ended, classesEq⟩ :=
        @readLines_separatedLines
          { ParseState.start with
            classes := finished .start
            current := some { first with
              methods := (first.methods.map Method.restored).reverse } }
          (1 + first.lines.length) _ canRereadOthers rfl
      refine ⟨after, ?_, ended, ?_⟩
      · rw [lines, readLines_append_of_eq_ok reads]
        exact readsOthers
      · rw [classesEq]
        simp [finished, finishClass, restored, ClassDefinition.restored, ParseState.start]

/-- What a listing has been written to is read as the listing, up to what is lost about
its bodies. -/
theorem CanReread.parse_text (canReread : listing.CanReread) :
    parse listing.text = .ok listing.restored := by
  obtain ⟨after, reads, ended, classesEq⟩ := canReread.readLines
  have read : (listing.lines.zipIdx 1).foldlM readNumbered .start = .ok after := reads
  unfold parse
  rw [listing.toList_text, lines_unlines canReread.single]
  dsimp only
  rw [read]
  change (if after.method.isSome = true then _ else _) = _
  rw [ended, Option.isSome_none, if_neg Bool.false_ne_true]
  change Except.ok (Listing.mk (finished after).reverse) = _
  rw [classesEq, List.reverse_reverse]

end Listing

end StackMaps
