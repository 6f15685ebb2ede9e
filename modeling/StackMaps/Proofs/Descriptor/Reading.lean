import StackMaps.Descriptor.Parser
import Mathlib.Data.List.TakeWhile

/-!
# Names and descriptors read

Every name is read from its own text. A descriptor has only one written form: whatever a
text is read as is written as the same text.
-/

namespace StackMaps

namespace UnqualifiedName

theorem ofString_of_fault? {text : String} (faultless : fault? text = none) :
    ofString text = .ok ⟨text, wellFormed_of_fault? faultless⟩ := by
  unfold ofString
  split
  · rename_i faulty
    rw [faultless] at faulty
    contradiction
  · rfl

theorem fault?_text (name : UnqualifiedName) : fault? name.text = none := by
  have unreserved : name.text.toList.find? isReserved = none := by
    simpa [List.find?_eq_none] using name.wellFormed.2
  rw [fault?, if_neg name.wellFormed.1, unreserved]
  rfl

/-- A name is read from its own text. -/
theorem ofString_text (name : UnqualifiedName) : ofString name.text = .ok name :=
  ofString_of_fault? name.fault?_text

theorem text_of_ofString {text : String} {name : UnqualifiedName}
    (read : ofString text = .ok name) : name.text = text := by
  unfold ofString at read
  split at read
  · contradiction
  · rw [← Except.ok.inj read]

end UnqualifiedName

namespace BinaryName

theorem text_ne_empty (name : BinaryName) : name.text ≠ "" := by
  intro empty
  have faultless := name.wellFormed
  rw [empty] at faultless
  exact absurd (faultless "" (by decide)) (by decide)

theorem fault?_text (name : BinaryName) : fault? name.text = none := by
  have faultless : (segments name.text).findSome? UnqualifiedName.fault? = none := by
    simpa [List.findSome?_eq_none_iff] using name.wellFormed
  rw [fault?, if_neg name.text_ne_empty, faultless]
  rfl

/-- A name is read from its own text. -/
theorem ofString_text (name : BinaryName) : ofString name.text = .ok name := by
  have faultless := name.fault?_text
  unfold ofString
  split
  · rename_i faulty
    rw [faultless] at faulty
    contradiction
  · rfl

theorem text_of_ofString {text : String} {name : BinaryName}
    (read : ofString text = .ok name) : name.text = text := by
  unfold ofString at read
  split at read
  · contradiction
  · rw [← Except.ok.inj read]

end BinaryName

namespace Descriptor

/-- What a reader returns has been written in front of what it has left. -/
def ReadsWritten {α : Type} (read : List Char → Result α) (write : α → List Char) : Prop :=
  ∀ text value behind, read text = .ok (value, behind) → text = write value ++ behind

theorem readBase_readsWritten : ReadsWritten readBase BaseType.descriptor := by
  intro text type behind read
  unfold readBase at read
  split at read
  · contradiction
  · split at read
    · rename_i found
      have letter := List.find?_some found
      simp only [Except.ok.injEq, Prod.mk.injEq] at read
      rw [BaseType.descriptor, ← read.1, ← read.2, beq_iff_eq.mp letter, List.singleton_append]
    · contradiction

theorem readClass_readsWritten : ReadsWritten readClass BinaryName.descriptor := by
  intro text name behind read
  unfold readClass at read
  split at read
  · rename_i rest
    split at read
    · contradiction
    · rename_i character after found
      split at read
      · rename_i named
        simp only [Except.ok.injEq, Prod.mk.injEq] at read
        have isEnd : character = ';' := by
          have stopped := List.head?_dropWhile_not (· != ';') rest
          rw [found] at stopped
          simpa using stopped
        have whole := List.takeWhile_append_dropWhile (p := (· != ';')) (l := rest)
        rw [found, isEnd, read.2] at whole
        rw [BinaryName.descriptor, ← read.1, BinaryName.text_of_ofString named,
          String.toList_ofList]
        simpa using whole.symm
      · contradiction
  · contradiction

/-- The brackets in front of a text. -/
theorem eq_brackets_append (text : List Char) (some : (text.takeWhile (· == '[')).length ≠ 0) :
    text = brackets ((text.takeWhile (· == '[')).length - 1) ++ text.dropWhile (· == '[') := by
  have all : text.takeWhile (· == '[') =
      List.replicate (text.takeWhile (· == '[')).length '[' := by
    refine List.eq_replicate_iff.mpr ⟨rfl, fun character present => ?_⟩
    simpa using List.mem_takeWhile_imp present
  rw [brackets, Nat.sub_add_cancel (Nat.pos_of_ne_zero some), ← all,
    List.takeWhile_append_dropWhile]

theorem readRef_readsWritten : ReadsWritten readRef RefType.descriptor := by
  intro text type behind read
  unfold readRef at read
  dsimp only at read
  split at read
  · contradiction
  · split at read
    · rename_i none
      obtain ⟨name, inner, rfl⟩ := of_map_eq_ok read
      have written := readClass_readsWritten _ _ _ inner
      have whole := List.takeWhile_append_dropWhile (p := (· == '[')) (l := text)
      rw [List.length_eq_zero_iff.mp none, List.nil_append] at whole
      rw [← whole, written]
      rfl
    · rename_i some
      have whole := eq_brackets_append text some
      split at read
      · obtain ⟨name, inner, rfl⟩ := of_map_eq_ok read
        have written := readClass_readsWritten _ _ _ inner
        rw [RefType.descriptor, List.append_assoc, ← written]
        exact whole
      · obtain ⟨element, inner, rfl⟩ := of_map_eq_ok read
        have written := readBase_readsWritten _ _ _ inner
        rw [RefType.descriptor, List.append_assoc, ← written]
        exact whole

theorem readField_readsWritten : ReadsWritten readField FieldType.descriptor := by
  intro text type behind read
  unfold readField at read
  split at read
  · contradiction
  · split at read
    · obtain ⟨ref, inner, rfl⟩ := of_map_eq_ok read
      exact readRef_readsWritten _ _ _ inner
    · obtain ⟨base, inner, rfl⟩ := of_map_eq_ok read
      exact readBase_readsWritten _ _ _ inner

theorem readParameters_readsWritten :
    ReadsWritten readParameters fun types => types.flatMap FieldType.descriptor ++ [')'] := by
  intro text
  fun_induction readParameters text with
  | case1 rest =>
      intro types behind read
      simp only [Except.ok.injEq, Prod.mk.injEq] at read
      rw [← read.1, ← read.2]
      rfl
  | case2 text closed fault step =>
      intro types behind read
      contradiction
  | case3 text closed type after step hypothesis =>
      intro types behind read
      obtain ⟨others, inner, rfl⟩ := of_map_eq_ok read
      have written := readField_readsWritten _ _ _ step
      have later := hypothesis _ _ inner
      rw [written, later]
      simp

/-- The written form of the result of a method. -/
def resultDescriptor : Option FieldType → List Char
  | none => ['V']
  | some type => type.descriptor

theorem descriptor_method_eq (method : MethodDescriptor) :
    method.descriptor =
      '(' :: (method.parameters.flatMap FieldType.descriptor ++ [')'] ++
        resultDescriptor method.result) := by
  obtain ⟨parameters, _ | type⟩ := method <;> simp [MethodDescriptor.descriptor, resultDescriptor]

theorem readResult_readsWritten : ReadsWritten readResult resultDescriptor := by
  intro text result behind read
  unfold readResult at read
  split at read
  · simp only [Except.ok.injEq, Prod.mk.injEq] at read
    rw [← read.1, ← read.2]
    rfl
  · obtain ⟨type, inner, rfl⟩ := of_map_eq_ok read
    exact readField_readsWritten _ _ _ inner

theorem readMethod_readsWritten : ReadsWritten readMethod MethodDescriptor.descriptor := by
  intro text method behind read
  unfold readMethod at read
  split at read
  · split at read
    · contradiction
    · rename_i parameters
      obtain ⟨result, inner, rfl⟩ := of_map_eq_ok read
      have written := readResult_readsWritten _ _ _ inner
      have front := readParameters_readsWritten _ _ _ parameters
      rw [front, written, descriptor_method_eq]
      simp
  · contradiction

/-- A text is the written form of the descriptor that it is read as. -/
theorem eq_ofList_of_parseWith
    {α : Type}
    {read : List Char → Result α}
    {write : α → List Char}
    {text : String}
    {value : α}
    (readsWritten : ReadsWritten read write)
    (parsed : parseWith read text = .ok value) :
    String.ofList (write value) = text := by
  unfold parseWith at parsed
  dsimp only at parsed
  split at parsed
  · contradiction
  · rename_i found
    have whole := readsWritten _ _ _ found
    rw [← Except.ok.inj parsed, ← List.append_nil (write _), ← whole, String.ofList_toList]
  · contradiction

end Descriptor

theorem RefType.render_of_parse {text : String} {type : RefType}
    (parsed : RefType.parse text = .ok type) : type.render = text :=
  Descriptor.eq_ofList_of_parseWith Descriptor.readRef_readsWritten parsed

theorem FieldType.render_of_parse {text : String} {type : FieldType}
    (parsed : FieldType.parse text = .ok type) : type.render = text :=
  Descriptor.eq_ofList_of_parseWith Descriptor.readField_readsWritten parsed

theorem MethodDescriptor.render_of_parse {text : String} {method : MethodDescriptor}
    (parsed : MethodDescriptor.parse text = .ok method) : method.render = text :=
  Descriptor.eq_ofList_of_parseWith Descriptor.readMethod_readsWritten parsed

end StackMaps
