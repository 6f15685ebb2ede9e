import StackMaps.Proofs.Descriptor.Reading
import StackMaps.Proofs.Hierarchy.Elements

/-!
# Descriptors and their texts

A written descriptor shows by itself where it ends, whatever text stands behind it. So every
descriptor is read back from its text unless an array in it has too many dimensions, and
nothing but written descriptors can be read.
-/

namespace StackMaps

/-! ## Names -/

/-- A character between separators is in one of the parts. -/
theorem exists_mem_splitOnP
    {separates : Char → Bool}
    {text : List Char}
    {character : Char}
    (present : character ∈ text)
    (inside : separates character = false) :
    ∃ part ∈ text.splitOnP separates, character ∈ part := by
  induction text with
  | nil => cases present
  | cons first rest hypothesis =>
      rw [List.splitOnP_cons_eq_if_modifyHead]
      rcases List.mem_cons.mp present with rfl | later
      · rw [if_neg (by simp [inside])]
        cases parts : rest.splitOnP separates with
        | nil => exact absurd parts (List.splitOnP_ne_nil _ _)
        | cons part others => exact ⟨_, List.mem_cons_self, List.mem_cons_self⟩
      · obtain ⟨part, among, inPart⟩ := hypothesis later
        split
        · exact ⟨part, List.mem_cons_of_mem _ among, inPart⟩
        · cases parts : rest.splitOnP separates with
          | nil => exact absurd parts (List.splitOnP_ne_nil _ _)
          | cons head others =>
              rw [parts] at among
              rcases List.mem_cons.mp among with rfl | isOther
              · exact ⟨_, List.mem_cons_self, List.mem_cons_of_mem _ inPart⟩
              · exact ⟨part, List.mem_cons_of_mem _ isOther, inPart⟩

namespace BinaryName

/-- The rule for the names of classes: there is something between any two slashes, and
nothing in it has a meaning in descriptors. -/
def IsValid (text : String) : Prop :=
  ∀ segment ∈ segments text,
    segment ≠ "" ∧ ∀ character ∈ segment.toList, isReserved character = false

theorem isValid_text (name : BinaryName) : IsValid name.text := by
  intro segment present
  obtain ⟨nonempty, unreserved⟩ :=
    UnqualifiedName.wellFormed_of_fault? (name.wellFormed segment present)
  exact ⟨nonempty, by simpa using unreserved⟩

/-- A name ends in front of the first semicolon. -/
theorem semicolon_notMem_text (name : BinaryName) : ';' ∉ name.text.toList := by
  intro present
  obtain ⟨part, among, inPart⟩ :=
    @exists_mem_splitOnP (· == '/') _ _ present (by decide)
  have valid := name.isValid_text (String.ofList part) (List.mem_map_of_mem among)
  rw [String.toList_ofList] at valid
  exact absurd (valid.2 ';' inPart) (by decide)

end BinaryName

/-! ## Descriptors with a text -/

/-- The class that a type is, or that its innermost elements are. -/
def RefType.className? : RefType → Option BinaryName
  | .object name | .objectArray _ name => some name
  | .primitiveArray _ _ => none

/-- Only valid names are in the type, and at most 255 dimensions. -/
structure RefType.IsDescribable (type : RefType) : Prop where
  dimensions : type.dimensions ≤ 255
  name : ∀ name ∈ type.className?, BinaryName.IsValid name.text

/-- All names in the type are valid, and there are at most 255 dimensions. -/
def FieldType.IsDescribable : FieldType → Prop
  | .base _ => True
  | .ref type => type.IsDescribable

/-- The parameters and the result can be described. -/
structure MethodDescriptor.IsDescribable (method : MethodDescriptor) : Prop where
  parameters : ∀ type ∈ method.parameters, type.IsDescribable
  result : ∀ type ∈ method.result, type.IsDescribable

theorem RefType.isDescribable_iff {type : RefType} :
    type.IsDescribable ↔ type.dimensions ≤ 255 :=
  ⟨IsDescribable.dimensions, fun few => ⟨few, fun name _ => name.isValid_text⟩⟩

namespace Descriptor

variable {α : Type} {read : List Char → Result α} {write : α → List Char} {Valid : α → Prop}

/-- Only such values are read. -/
def ReadsOnly (read : List Char → Result α) (Valid : α → Prop) : Prop :=
  ∀ text value behind, read text = .ok (value, behind) → Valid value

/-- What is written is read back, whatever text is behind it. -/
def ReadsBack
    (read : List Char → Result α)
    (write : α → List Char)
    (Valid : α → Prop) : Prop :=
  ∀ value behind, Valid value → read (write value ++ behind) = .ok (value, behind)

/-- The readings of a text are the values that are written so. -/
theorem parseWith_eq_ok_iff
    (readsWritten : ReadsWritten read write)
    (readsOnly : ReadsOnly read Valid)
    (readsBack : ReadsBack read write Valid)
    {text : String}
    {value : α} :
    parseWith read text = .ok value ↔ Valid value ∧ String.ofList (write value) = text := by
  constructor
  · intro parsed
    refine ⟨?_, eq_ofList_of_parseWith readsWritten parsed⟩
    unfold parseWith at parsed
    dsimp only at parsed
    split at parsed
    · contradiction
    · rename_i found
      exact Except.ok.inj parsed ▸ readsOnly _ _ _ found
    · contradiction
  · rintro ⟨valid, rfl⟩
    have back := readsBack value [] valid
    rw [List.append_nil] at back
    unfold parseWith
    dsimp only
    rw [String.toList_ofList, back]

/-! ## What is read -/

theorem readRef_readsOnly : ReadsOnly readRef RefType.IsDescribable := by
  intro text type behind read
  rw [RefType.isDescribable_iff]
  unfold readRef at read
  dsimp only at read
  split at read
  · contradiction
  · rename_i few
    rw [Nat.not_lt, maxDimensions] at few
    split at read
    · obtain ⟨name, _, rfl⟩ := of_map_eq_ok read
      exact Nat.zero_le _
    · rename_i some_
      split at read
      all_goals
        obtain ⟨element, _, rfl⟩ := of_map_eq_ok read
        rw [RefType.dimensions, Nat.sub_add_cancel (Nat.pos_of_ne_zero some_)]
        exact few

theorem readField_readsOnly : ReadsOnly readField FieldType.IsDescribable := by
  intro text type behind read
  unfold readField at read
  split at read
  · contradiction
  · split at read
    · obtain ⟨ref, inner, rfl⟩ := of_map_eq_ok read
      exact readRef_readsOnly _ _ _ inner
    · obtain ⟨base, _, rfl⟩ := of_map_eq_ok read
      trivial

theorem readParameters_readsOnly :
    ReadsOnly readParameters fun types => ∀ type ∈ types, type.IsDescribable := by
  intro text
  fun_induction readParameters text with
  | case1 rest =>
      intro types behind read
      rw [← (Prod.mk.inj (Except.ok.inj read)).1]
      exact fun _ absent => absurd absent List.not_mem_nil
  | case2 text closed fault step =>
      intro types behind read
      contradiction
  | case3 text closed type after step hypothesis =>
      intro types behind read
      obtain ⟨others, inner, rfl⟩ := of_map_eq_ok read
      exact List.forall_mem_cons.mpr ⟨readField_readsOnly _ _ _ step, hypothesis _ _ inner⟩

theorem readResult_readsOnly :
    ReadsOnly readResult fun result => ∀ type ∈ result, type.IsDescribable := by
  intro text result behind read
  unfold readResult at read
  split at read
  · rw [← (Prod.mk.inj (Except.ok.inj read)).1]
    exact fun _ absent => nomatch absent
  · obtain ⟨type, inner, rfl⟩ := of_map_eq_ok read
    exact fun _ same => Option.some.inj same ▸ readField_readsOnly _ _ _ inner

theorem readMethod_readsOnly : ReadsOnly readMethod MethodDescriptor.IsDescribable := by
  intro text method behind read
  unfold readMethod at read
  split at read
  · split at read
    · contradiction
    · rename_i parameters
      obtain ⟨result, inner, rfl⟩ := of_map_eq_ok read
      exact ⟨readParameters_readsOnly _ _ _ parameters, readResult_readsOnly _ _ _ inner⟩
  · contradiction

/-! ## What is read back -/

theorem readBase_readsBack : ReadsBack readBase BaseType.descriptor fun _ => True := by
  rintro (_ | _) behind - <;> rfl

theorem readClass_readsBack : ReadsBack readClass BinaryName.descriptor fun _ => True := by
  intro name behind _
  have whole : name.descriptor ++ behind = 'L' :: (name.text.toList ++ ';' :: behind) := by
    simp [BinaryName.descriptor]
  have inside : ∀ character ∈ name.text.toList, (character != ';') = true := by
    intro character present
    rw [bne_iff_ne]
    rintro rfl
    exact name.semicolon_notMem_text present
  have stop : List.dropWhile (· != ';') (name.text.toList ++ ';' :: behind) = ';' :: behind := by
    rw [List.dropWhile_append_of_pos inside, List.dropWhile_cons_of_neg (by decide)]
  have front : List.takeWhile (· != ';') (name.text.toList ++ ';' :: behind) =
      name.text.toList := by
    rw [List.takeWhile_append_of_pos inside, List.takeWhile_cons_of_neg (by decide),
      List.append_nil]
  rw [whole, readClass, stop]
  dsimp only
  rw [front, String.ofList_toList, BinaryName.ofString_text]

/-- A primitive type begins like nothing else. -/
theorem letter_notMem (type : BaseType) : type.letter ∉ ['[', 'L', 'V', ')'] := by
  cases type <;> decide

/-- The brackets of an array are counted up to its element. -/
theorem readRef_replicate
    {count : Nat}
    {text : List Char}
    (few : count ≤ 255)
    (stops : text.head? ≠ some '[') :
    readRef (List.replicate count '[' ++ text) =
      if count = 0 then
        (readClass text).map fun (name, behind) => (.object name, behind)
      else if text.head? = some 'L' then
        (readClass text).map fun (name, behind) => (.objectArray (count - 1) name, behind)
      else
        (readBase text).map fun (type, behind) => (.primitiveArray (count - 1) type, behind) := by
  have brackets_ : ∀ character ∈ List.replicate count '[', (character == '[') = true := by
    intro character present
    rw [List.eq_of_mem_replicate present]
    rfl
  have front : List.takeWhile (· == '[') (List.replicate count '[' ++ text) =
      List.replicate count '[' := by
    rw [List.takeWhile_append_of_pos brackets_]
    cases text with
    | nil => simp
    | cons first rest => simp_all
  have rest : List.dropWhile (· == '[') (List.replicate count '[' ++ text) = text := by
    rw [List.dropWhile_append_of_pos brackets_]
    cases text with
    | nil => rfl
    | cons first rest => simp_all
  have within : ¬maxDimensions < count := Nat.not_lt.mpr few
  unfold readRef
  dsimp only
  rw [front, rest, List.length_replicate, if_neg within]

theorem readRef_readsBack : ReadsBack readRef RefType.descriptor RefType.IsDescribable := by
  intro type behind describable
  have few := describable.dimensions
  cases type with
  | object name =>
      have back := readClass_readsBack name behind trivial
      have read := @readRef_replicate 0 (name.descriptor ++ behind) (by decide)
        (by simp [BinaryName.descriptor])
      rw [if_pos rfl, back] at read
      exact read
  | objectArray additional element =>
      have back := readClass_readsBack element behind trivial
      have read := @readRef_replicate (additional + 1) (element.descriptor ++ behind) few
        (by simp [BinaryName.descriptor])
      have isClass : (element.descriptor ++ behind).head? = some 'L' := rfl
      rw [if_neg (Nat.succ_ne_zero _), if_pos isClass, back] at read
      rw [RefType.descriptor, brackets, List.append_assoc, read]
      rfl
  | primitiveArray additional element =>
      have back := readBase_readsBack element behind trivial
      have letter := letter_notMem element
      simp only [List.mem_cons, not_or] at letter
      have read := @readRef_replicate (additional + 1) (element.descriptor ++ behind) few
        (by simpa [BaseType.descriptor] using letter.1)
      rw [if_neg (Nat.succ_ne_zero _), if_neg (by simpa [BaseType.descriptor] using letter.2.1),
        back] at read
      rw [RefType.descriptor, brackets, List.append_assoc, read]
      rfl

/-- Classes and arrays begin with one of two characters. -/
theorem exists_descriptor_ref_eq (type : RefType) :
    ∃ first rest, type.descriptor = first :: rest ∧ (first = 'L' ∨ first = '[') := by
  cases type with
  | object name => exact ⟨_, _, rfl, Or.inl rfl⟩
  | objectArray additional element => exact ⟨_, _, rfl, Or.inr rfl⟩
  | primitiveArray additional element => exact ⟨_, _, rfl, Or.inr rfl⟩

/-- No type begins like the end of the parameters or like a missing result. -/
theorem exists_descriptor_eq (type : FieldType) :
    ∃ first rest, type.descriptor = first :: rest ∧ first ≠ ')' ∧ first ≠ 'V' := by
  cases type with
  | base type =>
      have letter := letter_notMem type
      simp only [List.mem_cons, not_or] at letter
      exact ⟨_, _, rfl, letter.2.2.2.1, letter.2.2.1⟩
  | ref type =>
      obtain ⟨first, rest, descriptor_eq, rfl | rfl⟩ := exists_descriptor_ref_eq type
      · exact ⟨_, _, descriptor_eq, by decide, by decide⟩
      · exact ⟨_, _, descriptor_eq, by decide, by decide⟩

theorem readField_readsBack :
    ReadsBack readField FieldType.descriptor FieldType.IsDescribable := by
  intro type behind describable
  cases type with
  | base type =>
      have back := readBase_readsBack type behind trivial
      have letter := letter_notMem type
      simp only [List.mem_cons, not_or] at letter
      have primitive : ¬(type.letter = 'L' || type.letter = '[') = true := by
        simp [letter.1, letter.2.1]
      change readField (type.letter :: behind) = _
      rw [readField, if_neg primitive]
      change (readBase (type.descriptor ++ behind)).map _ = _
      rw [back]
      rfl
  | ref type =>
      have back := readRef_readsBack type behind describable
      obtain ⟨first, rest, descriptor_eq, begins⟩ := exists_descriptor_ref_eq type
      rw [FieldType.descriptor]
      rw [descriptor_eq, List.cons_append] at back ⊢
      rw [readField, if_pos (by simpa using begins), back]
      rfl

theorem readParameters_readsBack :
    ReadsBack readParameters (fun types => types.flatMap FieldType.descriptor ++ [')'])
      fun types => ∀ type ∈ types, type.IsDescribable := by
  intro types behind describable
  dsimp only
  induction types with
  | nil => rw [List.flatMap_nil, List.nil_append, List.singleton_append, readParameters]
  | cons type others hypothesis =>
      obtain ⟨here, later⟩ := List.forall_mem_cons.mp describable
      have step := readField_readsBack type
        (others.flatMap FieldType.descriptor ++ [')'] ++ behind) here
      obtain ⟨first, rest, descriptor_eq, inside, _⟩ := exists_descriptor_eq type
      rw [List.flatMap_cons, List.append_assoc, List.append_assoc, ← List.append_assoc _ [')']]
      unfold readParameters
      split
      -- The text of a type is not taken for the end of the parameters.
      · rename_i closed
        rw [descriptor_eq, List.cons_append] at closed
        exact absurd (List.cons.inj closed).1 inside
      · split
        · rename_i failed
          rw [step] at failed
          contradiction
        · rename_i found
          rw [step] at found
          obtain ⟨rfl, rfl⟩ := Prod.mk.inj (Except.ok.inj found)
          rw [hypothesis later]
          rfl

theorem readResult_readsBack :
    ReadsBack readResult resultDescriptor
      fun result => ∀ type ∈ result, type.IsDescribable := by
  rintro (_ | type) behind describable
  · rfl
  · have back := readField_readsBack type behind (describable type rfl)
    obtain ⟨first, rest, descriptor_eq, _, present⟩ := exists_descriptor_eq type
    unfold readResult
    split
    · rename_i missing
      rw [resultDescriptor, descriptor_eq, List.cons_append] at missing
      exact absurd (List.cons.inj missing).1 present
    · rw [resultDescriptor, back]
      rfl

theorem readMethod_readsBack :
    ReadsBack readMethod MethodDescriptor.descriptor MethodDescriptor.IsDescribable := by
  intro method behind describable
  have front := readParameters_readsBack method.parameters
    (resultDescriptor method.result ++ behind) describable.parameters
  have back := readResult_readsBack method.result behind describable.result
  rw [descriptor_method_eq, List.cons_append, List.append_assoc, readMethod, front]
  dsimp only
  rw [back]
  rfl

end Descriptor

/-- Descriptors and their texts correspond one to one: the readings of a text are the
descriptors that are written so, and these are the ones with valid names and arrays of at
most 255 dimensions. -/
theorem Descriptor.parse_eq_ok_iff (text : String) :
    (∀ type, RefType.parse text = .ok type ↔ type.IsDescribable ∧ type.render = text) ∧
    (∀ type, FieldType.parse text = .ok type ↔ type.IsDescribable ∧ type.render = text) ∧
    ∀ method, MethodDescriptor.parse text = .ok method ↔
      method.IsDescribable ∧ method.render = text :=
  ⟨fun _ => parseWith_eq_ok_iff readRef_readsWritten readRef_readsOnly readRef_readsBack,
    fun _ => parseWith_eq_ok_iff readField_readsWritten readField_readsOnly readField_readsBack,
    fun _ => parseWith_eq_ok_iff readMethod_readsWritten readMethod_readsOnly readMethod_readsBack⟩

end StackMaps
