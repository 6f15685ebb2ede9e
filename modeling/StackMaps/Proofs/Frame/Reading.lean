import StackMaps.Frame.Encoding
import Mathlib.Data.List.Basic
import Mathlib.Data.UInt

/-!
# Reading tables

The bytes of a table tell the table: a reader that goes by the tags recovers every frame
and knows where the table ends. Hence the bytes of no table begin those of another one,
and exactly the tables whose numbers fit into the format have bytes at all.
-/

namespace StackMaps

/-- Reads something off the front of some bytes and returns the bytes behind it. -/
abbrev ByteReader (α : Type) := StateT (List UInt8) Option α

namespace ByteReader

/-- Read one byte. -/
def byte : ByteReader UInt8
  | [] => none
  | first :: rest => some (first, rest)

/-- Read a number of 16 bits. -/
def word : ByteReader UInt16 := do
  let high ← byte
  let low ← byte
  pure (UInt16.ofNat (256 * high.toNat + low.toNat))

/-- Read as many things as are said. -/
def times {α : Type} (read : ByteReader α) : Nat → ByteReader (List α)
  | 0 => pure []
  | count + 1 => do
      let first ← read
      let rest ← times read count
      pure (first :: rest)

/-- Read a list behind the number of its elements. -/
def list {α : Type} (read : ByteReader α) : ByteReader (List α) := do
  let count ← word
  times read count.toNat

/-- Nothing can be read. -/
def refuse {α : Type} : ByteReader α := fun _ => none

end ByteReader

/-- The types without anything behind their tags, by these. -/
def EncodedType.plain? (tag : UInt8) : Option EncodedType :=
  [.top, .integer, .float, .double, .long, .null, .uninitializedThis][tag.toNat]?

/-- Read a type by its tag. -/
def EncodedType.read : ByteReader EncodedType := do
  let tag ← ByteReader.byte
  match EncodedType.plain? tag with
  | some type => pure type
  | none =>
      if tag = 7 then do
        let index ← ByteReader.word
        pure (.object index)
      else if tag = 8 then do
        let offset ← ByteReader.word
        pure (.uninitialized offset)
      else ByteReader.refuse

/-- Read the form behind a tag and a distance. -/
def EncodedFrame.readForm (tag : UInt8) : ByteReader (StackMapFrame UInt16 UInt16) :=
  if tag.toNat = 247 then do
    let type ← EncodedType.read
    pure (.same (some type))
  else if tag.toNat ≤ 250 then pure (.chop (251 - tag))
  else if tag.toNat = 251 then pure (.same none)
  else if tag.toNat ≤ 254 then do
    let locals ← ByteReader.times EncodedType.read (tag.toNat - 251)
    pure (.append locals)
  else do
    let locals ← ByteReader.list EncodedType.read
    let stack ← ByteReader.list EncodedType.read
    pure (.full locals stack)

/-- Read a frame by its tag. The tags from 128 to 246 are reserved. -/
def EncodedFrame.read : ByteReader EncodedFrame := do
  let tag ← ByteReader.byte
  if tag.toNat ≤ 63 then pure ⟨UInt16.ofNat tag.toNat, .same none⟩
  else if tag.toNat ≤ 127 then do
    let type ← EncodedType.read
    pure ⟨UInt16.ofNat (tag.toNat - 64), .same (some type)⟩
  else if tag.toNat ≤ 246 then ByteReader.refuse
  else do
    let delta ← ByteReader.word
    let form ← EncodedFrame.readForm tag
    pure ⟨delta, form⟩

/-- Read a table. -/
def StackMapTable.read : ByteReader StackMapTable := do
  let frames ← ByteReader.list EncodedFrame.read
  pure ⟨frames⟩

/-- The numbers in a frame fit into the format. -/
def EncodedFrame.Encodable (encoded : EncodedFrame) : Prop :=
  match encoded.frame with
  | .same _ => True
  | .chop count => 1 ≤ count.toNat ∧ count.toNat ≤ 3
  | .append locals => 1 ≤ locals.length ∧ locals.length ≤ 3
  | .full locals stack => locals.length ≤ 65535 ∧ stack.length ≤ 65535

/-- The numbers in a table fit into the format. -/
structure StackMapTable.Encodable (table : StackMapTable) : Prop where
  few : table.frames.length ≤ 65535
  frames : ∀ encoded ∈ table.frames, encoded.Encodable

namespace Written

variable {α β : Type} {first second written : Written}

/-! ## When nothing stops the writing -/

@[simp] theorem fault_ofBytes (bytes : List UInt8) : (ofBytes bytes).fault = none := rfl

@[simp] theorem fault_word (number : UInt16) : (word number).fault = none := rfl

@[simp] theorem fault_stop (fault : EncodingFault) : (stop fault).fault = some fault := rfl

theorem fault_andThen_eq_none_iff :
    (first.andThen second).fault = none ↔ first.fault = none ∧ second.fault = none := by
  unfold andThen
  cases stopped : first.fault with
  | none => simp
  | some fault => simp [stopped]

theorem fault_all_eq_none_iff {parts : List Written} :
    (all parts).fault = none ↔ ∀ part ∈ parts, part.fault = none := by
  induction parts with
  | nil => simp [all]
  | cons part rest hypothesis =>
      rw [all, List.foldr_cons, ← all, fault_andThen_eq_none_iff, hypothesis,
        List.forall_mem_cons]

theorem fault_list_eq_none_iff {write : α → Written} {elements : List α} :
    (list write elements).fault = none ↔
      elements.length ≤ 65535 ∧ ∀ element ∈ elements, (write element).fault = none := by
  unfold list
  split
  next many =>
      simp only [fault_stop, reduceCtorEq, false_iff, not_and]
      intro few
      omega
  next few =>
      rw [fault_andThen_eq_none_iff, fault_all_eq_none_iff, List.forall_mem_map]
      simp only [fault_word, true_and]
      rw [and_iff_right (Nat.le_of_not_lt few)]

theorem andThen_assoc (first second third : Written) :
    (first.andThen second).andThen third = first.andThen (second.andThen third) := by
  unfold andThen
  cases stopped : first.fault with
  | some fault => simp [stopped]
  | none =>
      cases stoppedThen : second.fault with
      | some fault => simp [stoppedThen]
      | none => simp

theorem andThen_nil (written : Written) : written.andThen (ofBytes []) = written := by
  unfold andThen
  split
  · rfl
  next complete =>
      obtain ⟨bytes, fault⟩ := written
      simp only at complete
      simp [ofBytes, complete]

/-! ## What is written can be read -/

/-- If nothing has stopped the writing, a reader finds the value in the bytes, whatever
bytes follow. -/
def Tells (written : Written) (read : ByteReader α) (value : α) : Prop :=
  written.fault = none → ∀ rest, read (written.bytes ++ rest) = some (value, rest)

theorem tells_stop (fault : EncodingFault) (read : ByteReader α) (value : α) :
    (stop fault).Tells read value := by
  intro complete
  cases complete

theorem tells_nil (value : α) : (ofBytes []).Tells (pure value) value :=
  fun _ _ => rfl

theorem tells_byte (byte : UInt8) : (ofBytes [byte]).Tells ByteReader.byte byte :=
  fun _ _ => rfl

/-- One thing is read after the other. -/
theorem Tells.andThen
    {read : ByteReader α}
    {next : α → ByteReader β}
    {value : α}
    {result : β}
    (tells : first.Tells read value)
    (tellsThen : second.Tells (next value) result) :
    (first.andThen second).Tells (read >>= next) result := by
  intro complete rest
  obtain ⟨firstComplete, secondComplete⟩ := fault_andThen_eq_none_iff.mp complete
  have bytes_eq : (first.andThen second).bytes = first.bytes ++ second.bytes := by
    rw [Written.andThen, firstComplete]
  have found := tells firstComplete (second.bytes ++ rest)
  calc (read >>= next) ((first.andThen second).bytes ++ rest)
      = (read (first.bytes ++ (second.bytes ++ rest))).bind
          fun (value, behind) => next value behind := by
        rw [bytes_eq, List.append_assoc]
        rfl
    _ = next value (second.bytes ++ rest) := by rw [found]; rfl
    _ = some (result, rest) := tellsThen secondComplete rest

/-- What has been read can be turned into something else. -/
theorem Tells.map
    {read : ByteReader α}
    {value : α}
    (tells : written.Tells read value)
    (wrap : α → β) :
    written.Tells (read >>= fun found => pure (wrap found)) (wrap value) := by
  intro complete rest
  have found := tells complete rest
  change (read (written.bytes ++ rest)).bind _ = _
  rw [found]
  rfl

theorem tells_word (number : UInt16) : (word number).Tells ByteReader.word number := by
  intro _ rest
  have high : (number >>> 8).toUInt8.toNat = number.toNat / 256 := by
    have := number.toNat_lt
    simp only [UInt16.toNat_toUInt8, UInt16.toNat_shiftRight, UInt16.reduceToNat, Nat.reduceMod,
      Nat.shiftRight_eq_div_pow, Nat.reducePow]
    omega
  have low : number.toUInt8.toNat = number.toNat % 256 := UInt16.toNat_toUInt8 number
  have whole :
      UInt16.ofNat (256 * (number >>> 8).toUInt8.toNat + number.toUInt8.toNat) = number := by
    rw [high, low, Nat.div_add_mod, UInt16.ofNat_toNat]
  exact congrArg (fun read => some (read, rest)) whole

theorem tells_all
    {read : ByteReader α}
    {write : α → Written}
    {elements : List α}
    (tells : ∀ element ∈ elements, (write element).Tells read element) :
    (all (elements.map write)).Tells (ByteReader.times read elements.length) elements := by
  induction elements with
  | nil => exact tells_nil []
  | cons first rest hypothesis =>
      rw [List.forall_mem_cons] at tells
      exact tells.1.andThen ((hypothesis tells.2).map (first :: ·))

theorem tells_list
    {read : ByteReader α}
    {write : α → Written}
    {elements : List α}
    (tells : ∀ element ∈ elements, (write element).Tells read element) :
    (list write elements).Tells (ByteReader.list read) elements := by
  unfold list
  split
  next => exact tells_stop _ _ _
  next few =>
      have count_eq : (UInt16.ofNat elements.length).toNat = elements.length :=
        UInt16.toNat_ofNat_of_lt' (by simp only [UInt16.size]; omega)
      refine (tells_word _).andThen ?_
      rw [count_eq]
      exact tells_all tells

end Written

/-! ## Types and frames -/

open Written

theorem EncodedType.fault_write (type : EncodedType) : (EncodedType.write type).fault = none := by
  cases type <;> rfl

theorem EncodedType.tells_write (type : EncodedType) :
    (EncodedType.write type).Tells EncodedType.read type := by
  cases type with
  | object index => exact (tells_byte 7).andThen ((tells_word index).map _)
  | uninitialized offset => exact (tells_byte 8).andThen ((tells_word offset).map _)
  | _ => exact fun _ _ => rfl

namespace EncodedFrame

variable {tag base extended : UInt8} {delta : UInt16}

theorem fault_writeDelta : (writeDelta base extended delta).fault = none := by
  unfold writeDelta
  split
  · rfl
  · rfl

/-- The form behind a tag and a distance is read by the tag. -/
theorem tells_extended
    {written : Written}
    {form : StackMapFrame UInt16 UInt16}
    (large : 247 ≤ tag.toNat)
    (tells : written.Tells (readForm tag) form) :
    (((ofBytes [tag]).andThen (word delta)).andThen written).Tells EncodedFrame.read
      ⟨delta, form⟩ := by
  rw [andThen_assoc]
  refine (tells_byte tag).andThen ?_
  have notSame : ¬tag.toNat ≤ 63 := by omega
  have notSameOne : ¬tag.toNat ≤ 127 := by omega
  have notReserved : ¬tag.toNat ≤ 246 := by omega
  simp only [if_neg notSame, if_neg notSameOne, if_neg notReserved]
  exact (tells_word delta).andThen (tells.map _)

/-- Without anything behind the distance there is nothing more to read. -/
theorem tells_extended_nil
    {form : StackMapFrame UInt16 UInt16}
    (large : 247 ≤ tag.toNat)
    (form_eq : readForm tag = pure form) :
    ((ofBytes [tag]).andThen (word delta)).Tells EncodedFrame.read ⟨delta, form⟩ := by
  rw [← andThen_nil ((ofBytes [tag]).andThen (word delta))]
  exact tells_extended large (form_eq ▸ tells_nil form)

/-- A short distance is told by the tag. -/
theorem toNat_add_toUInt8
    (near : delta ≤ 63)
    (small : base.toNat ≤ 64) :
    (base + delta.toUInt8).toNat = base.toNat + delta.toNat := by
  have : delta.toNat ≤ 63 := near
  rw [UInt8.toNat_add, UInt16.toNat_toUInt8]
  omega

theorem tells_same : (EncodedFrame.write ⟨delta, .same none⟩).Tells EncodedFrame.read
    ⟨delta, .same none⟩ := by
  simp only [write, writeDelta]
  split
  next near =>
      have tag_eq : (0 + delta.toUInt8).toNat = delta.toNat := by
        rw [toNat_add_toUInt8 near (by decide)]
        exact Nat.zero_add _
      have near' : delta.toNat ≤ 63 := near
      rw [← andThen_nil (ofBytes _)]
      refine (tells_byte _).andThen ?_
      simp only [tag_eq, if_pos near', UInt16.ofNat_toNat]
      exact tells_nil _
  next => exact tells_extended_nil (by decide) rfl

theorem tells_sameOne (type : EncodedType) :
    (EncodedFrame.write ⟨delta, .same (some type)⟩).Tells EncodedFrame.read
      ⟨delta, .same (some type)⟩ := by
  simp only [write, writeDelta]
  split
  next near =>
      have tag_eq : (64 + delta.toUInt8).toNat = 64 + delta.toNat :=
        toNat_add_toUInt8 near (by decide)
      have near' : delta.toNat ≤ 63 := near
      have notSame : ¬64 + delta.toNat ≤ 63 := by omega
      have isSameOne : 64 + delta.toNat ≤ 127 := by omega
      refine (tells_byte _).andThen ?_
      simp only [tag_eq, if_neg notSame, if_pos isSameOne, Nat.add_sub_cancel_left,
        UInt16.ofNat_toNat]
      exact (EncodedType.tells_write type).map _
  next => exact tells_extended (by decide) ((EncodedType.tells_write type).map _)

theorem tells_chop (count : UInt8) :
    (EncodedFrame.write ⟨delta, .chop count⟩).Tells EncodedFrame.read ⟨delta, .chop count⟩ := by
  simp only [write]
  split
  next fits =>
      obtain ⟨positive, few⟩ : 1 ≤ count.toNat ∧ count.toNat ≤ 3 := by
        simpa [UInt8.le_iff_toNat_le] using fits
      have tag_eq : (251 - count).toNat = 251 - count.toNat :=
        UInt8.toNat_sub_of_le _ _ (UInt8.le_iff_toNat_le.mpr (Nat.le_trans few (by decide)))
      refine tells_extended_nil (by omega) ?_
      have notSameOne : ¬251 - count.toNat = 247 := by omega
      have isChop : 251 - count.toNat ≤ 250 := by omega
      simp only [readForm, tag_eq, if_neg notSameOne, if_pos isChop]
      rw [sub_sub_self]
  next => exact tells_stop _ _ _

theorem tells_append (locals : List EncodedType) :
    (EncodedFrame.write ⟨delta, .append locals⟩).Tells EncodedFrame.read
      ⟨delta, .append locals⟩ := by
  simp only [write]
  split
  next fits =>
      obtain ⟨positive, few⟩ : 1 ≤ locals.length ∧ locals.length ≤ 3 := by
        simpa using fits
      have tag_eq : (251 + UInt8.ofNat locals.length).toNat = 251 + locals.length := by
        rw [UInt8.toNat_add, UInt8.toNat_ofNat']
        simp only [UInt8.reduceToNat]
        omega
      refine tells_extended (by omega) ?_
      have notSameOne : ¬251 + locals.length = 247 := by omega
      have notChop : ¬251 + locals.length ≤ 250 := by omega
      have notSame : ¬251 + locals.length = 251 := by omega
      have isAppend : 251 + locals.length ≤ 254 := by omega
      simp only [readForm, tag_eq, if_neg notSameOne, if_neg notChop, if_neg notSame,
        if_pos isAppend, Nat.add_sub_cancel_left]
      exact (tells_all fun type _ => EncodedType.tells_write type).map _
  next => exact tells_stop _ _ _

theorem tells_full (locals stack : List EncodedType) :
    (EncodedFrame.write ⟨delta, .full locals stack⟩).Tells EncodedFrame.read
      ⟨delta, .full locals stack⟩ :=
  tells_extended (by decide)
    ((tells_list fun type _ => EncodedType.tells_write type).andThen
      ((tells_list fun type _ => EncodedType.tells_write type).map _))

/-- A frame is read back by its tag. -/
theorem tells_write (encoded : EncodedFrame) :
    encoded.write.Tells EncodedFrame.read encoded := by
  obtain ⟨delta, frame⟩ := encoded
  cases frame with
  | same stack =>
      cases stack with
      | none => exact tells_same
      | some type => exact tells_sameOne type
  | chop count => exact tells_chop count
  | append locals => exact tells_append locals
  | full locals stack => exact tells_full locals stack

/-- Nothing stops the writing of a frame if its numbers fit into the format, and only
then. -/
theorem fault_write_eq_none_iff (encoded : EncodedFrame) :
    encoded.write.fault = none ↔ encoded.Encodable := by
  obtain ⟨delta, frame⟩ := encoded
  cases frame with
  | same stack =>
      cases stack with
      | none => simp [write, Encodable, fault_writeDelta]
      | some type =>
          simp [write, Encodable, fault_andThen_eq_none_iff, fault_writeDelta,
            EncodedType.fault_write]
  | chop count =>
      simp only [write, Encodable]
      split
      next fits => simpa [fault_andThen_eq_none_iff, UInt8.le_iff_toNat_le] using fits
      next bad => simpa [UInt8.le_iff_toNat_le] using bad
  | append locals =>
      simp only [write, Encodable]
      split
      next fits =>
          simpa [fault_andThen_eq_none_iff, fault_all_eq_none_iff, EncodedType.fault_write]
            using fits
      next bad => simpa using bad
  | full locals stack =>
      simp [write, Encodable, fault_andThen_eq_none_iff, fault_list_eq_none_iff,
        EncodedType.fault_write]

end EncodedFrame

/-! ## Tables -/

namespace StackMapTable

theorem tells_write (table : StackMapTable) : table.write.Tells StackMapTable.read table :=
  (tells_list fun encoded _ => encoded.tells_write).map _

theorem fault_write_eq_none_iff (table : StackMapTable) :
    table.write.fault = none ↔ table.Encodable := by
  unfold write
  rw [fault_list_eq_none_iff]
  simp only [EncodedFrame.fault_write_eq_none_iff]
  exact ⟨fun ⟨few, frames⟩ => ⟨few, frames⟩, fun ⟨few, frames⟩ => ⟨few, frames⟩⟩

/-- Exactly the tables whose numbers fit into the format can be written. A reader that
goes by the tags finds a table that has been written and where its bytes end, so the
bytes of one table begin those of another only if the two are the same. -/
theorem write_unambiguous :
    (∀ table : StackMapTable, table.write.fault = none ↔ table.Encodable) ∧
      (∀ table : StackMapTable, table.Encodable →
        ∀ rest, StackMapTable.read (table.write.bytes ++ rest) = some (table, rest)) ∧
      ∀ first second : StackMapTable,
        first.write.fault = none →
        second.write.fault = none →
        first.write.bytes <+: second.write.bytes →
        first = second := by
  refine ⟨fault_write_eq_none_iff, ?_, ?_⟩
  · intro table encodable
    exact table.tells_write (table.fault_write_eq_none_iff.mpr encodable)
  · intro first second firstComplete secondComplete begins
    obtain ⟨rest, bytes_eq⟩ := begins
    have readFirst := first.tells_write firstComplete rest
    have readSecond := second.tells_write secondComplete []
    rw [List.append_nil, ← bytes_eq, readFirst] at readSecond
    exact congrArg Prod.fst (Option.some.inj readSecond)

/-- Frames on either side of the distance that a tag can still hold. -/
def nearAndFar : StackMapTable :=
  ⟨[⟨63, .same none⟩, ⟨64, .same none⟩, ⟨63, .same (some (.object 258))⟩,
    ⟨64, .same (some .long)⟩, ⟨0, .chop 3⟩, ⟨1, .append [.integer, .uninitialized 9]⟩,
    ⟨2, .full [.double] [.null]⟩]⟩

theorem write_unambiguous_nearAndFar :
    nearAndFar.Encodable ∧
      StackMapTable.read (nearAndFar.write.bytes ++ [63]) = some (nearAndFar, [63]) ∧
      ∀ other : StackMapTable,
        other.write.fault = none →
        nearAndFar.write.bytes <+: other.write.bytes →
        nearAndFar = other :=
  have complete : nearAndFar.write.fault = none := by decide
  have encodable : nearAndFar.Encodable := (write_unambiguous.1 nearAndFar).mp complete
  ⟨encodable, write_unambiguous.2.1 nearAndFar encodable [63],
    fun other => write_unambiguous.2.2 nearAndFar other complete⟩

end StackMapTable

end StackMaps
