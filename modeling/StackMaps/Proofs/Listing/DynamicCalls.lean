import Mathlib.Data.List.Forall2
import StackMaps.Proofs.Listing.Parsing
import StackMaps.Proofs.Listing.Separators

/-!
# Dynamic calls read back

The operands of a dynamic call are cut into parts before any of them is read, also at a
separator inside a text. So a call is read back as it was exactly if its written parts can be
told apart.
-/

namespace StackMaps
namespace Listing

open Text

/-! ## Operands -/

/-- Reading one by one succeeds if each one is read. -/
theorem mapM_eq_ok
    {α β : Type}
    {read : α → Reading β}
    {texts : List α}
    {results : List β} :
    texts.mapM read = .ok results ↔
      List.Forall₂ (fun text result => read text = .ok result) texts results := by
  induction texts generalizing results with
  | nil =>
      rw [List.mapM_nil, List.forall₂_nil_left_iff]
      exact ⟨fun same => (Except.ok.inj same).symm, fun same => congrArg Except.ok same.symm⟩
  | cons text texts hypothesis =>
      rw [List.mapM_cons, bind_eq_ok, List.forall₂_cons_left_iff]
      refine exists_congr fun first => ?_
      rw [bind_eq_ok]
      constructor
      · rintro ⟨readFirst, others, readOthers, same⟩
        exact ⟨others, readFirst, hypothesis.mp readOthers, (Except.ok.inj same).symm⟩
      · rintro ⟨others, readFirst, readOthers, rfl⟩
        exact ⟨readFirst, others, hypothesis.mpr readOthers, rfl⟩

/-- What stands on the right is related to something on the left. -/
theorem exists_of_mem_forall₂
    {α β : Type}
    {related : α → β → Prop}
    {texts : List α}
    {results : List β}
    (each : List.Forall₂ related texts results)
    {result : β}
    (present : result ∈ results) :
    ∃ text ∈ texts, related text result := by
  induction each with
  | nil => cases present
  | cons first others hypothesis =>
      rcases List.mem_cons.mp present with rfl | later
      · exact ⟨_, List.mem_cons_self, first⟩
      · obtain ⟨text, isText, isRelated⟩ := hypothesis later
        exact ⟨text, List.mem_cons_of_mem _ isText, isRelated⟩

theorem readSigned?_comma (width : Nat) (text : List Char) :
    Numeral.readSigned? width (',' :: text) = none :=
  rfl

theorem readSigned?_dropLast_comma (width : Nat) (text : List Char) :
    Numeral.readSigned? width (',' :: text).dropLast = none := by
  cases text <;> rfl

/-- No constant that is written exactly begins with a comma. -/
theorem readConstant_comma
    {constant : Constant}
    (isExact : constant.IsExact)
    (text : List Char) :
    readConstant (',' :: text) ≠ .ok constant := by
  intro read
  obtain ⟨rest, trimmed⟩ := exists_trim_eq_cons (by decide : isBlank ',' = false) text
  have form := constantForm_of_readConstant read
  rw [trimmed] at form
  cases form with
  | string content quoted => cases quoted
  | classRef whole => cases whole
  | methodType whole => cases whole
  | methodHandle whole => cases whole
  | dynamic whole => cases whole
  | numeric numeric =>
      obtain ⟨_, _, digits⟩ | ⟨_, _, digits⟩ := exists_of_readNumeric? isExact numeric
      · exact digits (readSigned?_comma 32 rest)
      · exact digits (readSigned?_dropLast_comma 64 rest)

/-- What is called, and behind it each argument, as they are written. -/
def dynamicCallParts
    (name : UnqualifiedName)
    (descriptor : MethodDescriptor)
    (bootstrap : MethodHandle)
    (arguments : List Constant) : List (List Char) :=
  (s!"{name.text} {descriptor.render} {bootstrap.text}").toList ::
    arguments.map fun argument => argument.text.toList

/-- The operands of a dynamic call as they are written. -/
def dynamicCallOperands
    (name : UnqualifiedName)
    (descriptor : MethodDescriptor)
    (bootstrap : MethodHandle)
    (arguments : List Constant) : List Char :=
  separator.intercalate (dynamicCallParts name descriptor bootstrap arguments)

variable {name : UnqualifiedName} {descriptor : MethodDescriptor} {bootstrap : MethodHandle}
  {arguments : List Constant} {text : List Char}

theorem intercalate_cons (front : List Char) (parts : List (List Char)) :
    separator.intercalate (front :: parts) = front ++ parts.flatMap (separator ++ ·) := by
  induction parts generalizing front with
  | nil => simp
  | cons next rest hypothesis =>
      rw [List.intercalate_cons_cons, hypothesis, List.flatMap_cons]
      simp

/-- The operands stand behind the mnemonic. -/
theorem toList_text_invokeDynamic :
    (Instruction.invokeDynamic name descriptor bootstrap arguments).text.toList =
      "invokedynamic ".toList ++ dynamicCallOperands name descriptor bootstrap arguments := by
  rw [dynamicCallOperands, dynamicCallParts, intercalate_cons]
  change (s!"invokedynamic {name.text} {descriptor.render} {bootstrap.text}" ++
    String.join (arguments.map fun argument => " , " ++ argument.text)).toList = _
  simp [toString_string, String.toList_join, List.flatMap_map, separator]

/-- What a dynamic call has been read from. -/
theorem exists_of_readDynamicCall
    (read : readDynamicCall text = .ok (.invokeDynamic name descriptor bootstrap arguments)) :
    ∃ words, wordStrings ((splitArguments text).headD []) =
        name.text :: descriptor.render :: words ∧
      readDescriptor MethodDescriptor.parse descriptor.render = .ok descriptor ∧
      readHandle words = .ok bootstrap ∧
      ((splitArguments text).drop 1).mapM readConstant = .ok arguments := by
  unfold readDynamicCall at read
  dsimp only at read
  split at read
  next nameWord descriptorWord kind rest words =>
      obtain ⟨constants, isArguments, read⟩ := bind_eq_ok.mp read
      obtain ⟨unqualified, isName, read⟩ := bind_eq_ok.mp read
      obtain ⟨type, isDescriptor, read⟩ := bind_eq_ok.mp read
      obtain ⟨handle, isHandle, read⟩ := bind_eq_ok.mp read
      obtain ⟨rfl, rfl, rfl, rfl⟩ := Instruction.invokeDynamic.inj (Except.ok.inj read)
      rw [text_of_readUnqualifiedName isName, render_of_readMethod isDescriptor]
      exact ⟨kind :: rest, words, isDescriptor, isHandle, isArguments⟩
  next => cases read

/-- A dynamic call can be read from its operands, if these are told apart. -/
theorem readDynamicCall_operands
    (single : '\n' ∉ text)
    (read : readDynamicCall text = .ok (.invokeDynamic name descriptor bootstrap arguments))
    (isExact : ∀ argument ∈ arguments, argument.IsExact)
    (separable : Separable (dynamicCallParts name descriptor bootstrap arguments)) :
    readDynamicCall (dynamicCallOperands name descriptor bootstrap arguments) =
      .ok (.invokeDynamic name descriptor bootstrap arguments) := by
  obtain ⟨words, isHead, isDescriptor, isHandle, isArguments⟩ := exists_of_readDynamicCall read
  obtain ⟨isKind, _⟩ := words_of_readHandle isHandle
  have areWords := areWords_wordStrings ((splitArguments text).headD [])
  rw [isHead] at areWords
  obtain ⟨nameWord, others⟩ := List.forall_mem_cons.mp areWords
  obtain ⟨descriptorWord, handleWords⟩ := List.forall_mem_cons.mp others
  have head : wordStrings (s!"{name.text} {descriptor.render} {bootstrap.text}").toList =
      name.text :: descriptor.render :: bootstrap.words := by
    refine wordStrings_of_cons_eq ?_ (List.forall_mem_cons.mpr ⟨nameWord,
      List.forall_mem_cons.mpr ⟨descriptorWord, areWords_of_readHandle handleWords isHandle⟩⟩)
    rw [spacedStrings_cons, spacedStrings_cons, ← cons_text_handle]
    simp [toString_string]
  have constants : (arguments.map fun argument => argument.text.toList).mapM readConstant =
      .ok arguments := by
    refine mapM_eq_ok.mpr (List.forall₂_map_left_iff.mpr (List.forall₂_same.mpr ?_))
    intro argument present
    obtain ⟨part, isPart, readPart⟩ := exists_of_mem_forall₂ (mapM_eq_ok.mp isArguments) present
    have singleIn : '\n' ∉ part := fun broken =>
      single (subset_of_mem_splitArguments (List.mem_of_mem_drop isPart) broken)
    exact (rereadsFrom_of_readConstant singleIn (isExact argument present) readPart).read
  have parts_eq := splitArguments_intercalate (List.cons_ne_nil _ _) separable
  unfold readDynamicCall
  rw [dynamicCallOperands, dynamicCallParts, parts_eq]
  dsimp only [List.headD_cons, List.drop_one, List.tail_cons]
  rw [head]
  exact bind_eq_ok.mpr ⟨arguments, constants, bind_eq_ok.mpr ⟨name, readUnqualifiedName_text name,
    bind_eq_ok.mpr ⟨descriptor, isDescriptor, bind_eq_ok.mpr ⟨bootstrap, readHandle_words isKind,
      rfl⟩⟩⟩⟩

/-- A dynamic call is read from its operands only if these are told apart: else there are too many
arguments, or one that begins with a comma. -/
theorem separable_of_readDynamicCall
    (isExact : ∀ argument ∈ arguments, argument.IsExact)
    (read : readDynamicCall (dynamicCallOperands name descriptor bootstrap arguments) =
      .ok (.invokeDynamic name descriptor bootstrap arguments)) :
    Separable (dynamicCallParts name descriptor bootstrap arguments) := by
  by_contra inseparable
  obtain ⟨_, _, _, _, isArguments⟩ := exists_of_readDynamicCall read
  have each := mapM_eq_ok.mp isArguments
  obtain more | ⟨rest, comma⟩ := cutsInto_of_not_separable inseparable
  · have count := each.length_eq
    rw [List.length_drop, dynamicCallOperands] at count
    simp only [dynamicCallParts, List.length_cons, List.length_map] at more count
    omega
  · obtain ⟨argument, present, readComma⟩ := exists_of_mem_forall₂ each.flip comma
    exact readConstant_comma (isExact argument present) rest readComma

/-! ## Listings -/

/-- A dynamic call has been read as one. -/
theorem IsRead.exists_readDynamicCall
    {instruction : Instruction}
    (isRead : IsRead instruction)
    (dynamic : instruction.isDynamicCall = true) :
    ∃ text, '\n' ∉ text ∧ readDynamicCall text = .ok instruction := by
  obtain ⟨line, mnemonic, text, scope, after, _, single, read⟩ := isRead
  obtain ⟨opcode, _, ⟨_, read⟩ | ⟨_, target, rfl⟩ | ⟨_, fallback, low, targets, rfl⟩ |
    ⟨_, fallback, targets, rfl⟩⟩ := exists_of_readInstruction read
  · by_cases same : opcode = .invokedynamic
    · subst same
      exact ⟨text, single, read⟩
    · have static := (yields_readPlain_of_ne same instruction read).2
      rw [dynamic] at static
      cases static
  · cases dynamic
  · cases dynamic
  · cases dynamic

/-- The instruction is in a body of the listing. -/
def Has (listing : Listing) (instruction : Instruction) : Prop :=
  ∃ definition ∈ listing.classes, ∃ method ∈ definition.methods, ∃ body ∈ method.body,
    instruction ∈ body.instructions

/-- A dynamic call in a listing that has been read can be read from its written operands exactly
if these are told apart. -/
theorem readDynamicCall_of_parse
    {source : String}
    {listing : Listing}
    (parsed : parse source = .ok listing)
    (has : listing.Has (.invokeDynamic name descriptor bootstrap arguments))
    (isExact : ∀ argument ∈ arguments, argument.IsExact) :
    (Instruction.invokeDynamic name descriptor bootstrap arguments).text.toList =
        "invokedynamic ".toList ++ dynamicCallOperands name descriptor bootstrap arguments ∧
      (readDynamicCall (dynamicCallOperands name descriptor bootstrap arguments) =
          .ok (.invokeDynamic name descriptor bootstrap arguments) ↔
        Separable (dynamicCallParts name descriptor bootstrap arguments)) := by
  obtain ⟨definition, isListed, method, isMethod, body, isBody, present⟩ := has
  have isRead := (isRead_of_parse parsed definition isListed).bodies method isMethod body isBody
  obtain ⟨text, single, read⟩ :=
    (isRead.instructions _ present rfl).exists_readDynamicCall rfl
  exact ⟨toList_text_invokeDynamic, separable_of_readDynamicCall isExact,
    readDynamicCall_operands single read isExact⟩

/-- A handle of a method that finds the target of a call. -/
def bootHandle : MethodHandle :=
  ⟨6, ⟨"Owner", by decide⟩, ⟨"boot", by decide⟩, "()V", false⟩

/-- The name of a call that is linked at run time. -/
def linkedName : UnqualifiedName :=
  ⟨"linked", by decide⟩

/-- A dynamic call with some arguments. -/
def dynamicCall (arguments : List Constant) : Instruction :=
  .invokeDynamic linkedName ⟨[], none⟩ bootHandle arguments

/-- A listing with the call alone. -/
def dynamicCallListing (arguments : List Constant) : Listing :=
  ⟨[{ name := ⟨"Test", by decide⟩
      superclass := some .object
      interfaces := []
      flags := .empty
      methods :=
        [{ name := ⟨"test", by decide⟩
           descriptor := ⟨[], none⟩
           flags := ⟨8⟩
           body := some (.ofInstructions [dynamicCall arguments, .simple .returnVoid] [] ⟨0⟩) }] }]⟩

/-- The lines of a listing with the call, the written arguments of which are given. -/
def dynamicCallSource (arguments : String) : String :=
  ".class Test\n.method static test()V\ninvokedynamic linked ()V 6 Owner boot ()V" ++ arguments ++
    "\nreturn\n.end method"

theorem has_dynamicCallListing (arguments : List Constant) :
    (dynamicCallListing arguments).Has (dynamicCall arguments) :=
  ⟨_, List.mem_cons_self, _, List.mem_cons_self, _, rfl, List.mem_cons_self⟩

/-- A text with a comma and blanks that make no separator is read as it was. -/
theorem readDynamicCall_of_parse_comma :
    parse (dynamicCallSource " , \"a, b\" , 5") =
        .ok (dynamicCallListing [.string "a, b", .integer 5]) ∧
      (dynamicCallListing [.string "a, b", .integer 5]).Has
        (dynamicCall [.string "a, b", .integer 5]) ∧
      (∀ argument ∈ [Constant.string "a, b", .integer 5], argument.IsExact) ∧
      Separable (dynamicCallParts linkedName ⟨[], none⟩ bootHandle
        [.string "a, b", .integer 5]) ∧
      readDynamicCall (dynamicCallOperands linkedName ⟨[], none⟩ bootHandle
        [.string "a, b", .integer 5]) = .ok (dynamicCall [.string "a, b", .integer 5]) := by
  have parsed : parse (dynamicCallSource " , \"a, b\" , 5") =
      .ok (dynamicCallListing [.string "a, b", .integer 5]) := by
    decide +kernel
  have has := has_dynamicCallListing [.string "a, b", .integer 5]
  have isExact : ∀ argument ∈ [Constant.string "a, b", .integer 5], argument.IsExact := by
    decide
  have separable : Separable (dynamicCallParts linkedName ⟨[], none⟩ bootHandle
      [.string "a, b", .integer 5]) := by
    decide +kernel
  exact ⟨parsed, has, isExact, separable,
    (readDynamicCall_of_parse parsed has isExact).2.mpr separable⟩

/-- A text with a separator is cut apart, and its first part is no text. The separator is not
there in the source, where one of its blanks is written by its code. -/
theorem readDynamicCall_of_parse_separator :
    parse (dynamicCallSource " , \"a\\u\x7b20\x7d, b\"") =
        .ok (dynamicCallListing [.string "a , b"]) ∧
      (dynamicCallListing [.string "a , b"]).Has (dynamicCall [.string "a , b"]) ∧
      (∀ argument ∈ [Constant.string "a , b"], argument.IsExact) ∧
      (dynamicCall [.string "a , b"]).text.toList = "invokedynamic ".toList ++
        dynamicCallOperands linkedName ⟨[], none⟩ bootHandle [.string "a , b"] ∧
      readDynamicCall (dynamicCallOperands linkedName ⟨[], none⟩ bootHandle
        [.string "a , b"]) = .error (.malformedString "\"a") := by
  have parsed : parse (dynamicCallSource " , \"a\\u\x7b20\x7d, b\"") =
      .ok (dynamicCallListing [.string "a , b"]) := by
    decide +kernel
  have fails : readDynamicCall (dynamicCallOperands linkedName ⟨[], none⟩ bootHandle
      [.string "a , b"]) = .error (.malformedString "\"a") := by
    decide +kernel
  exact ⟨parsed, has_dynamicCallListing _, by decide, toList_text_invokeDynamic, fails⟩

end Listing
end StackMaps
