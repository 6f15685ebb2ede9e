import StackMaps.Listing.Parser
import StackMaps.Proofs.Listing.Operands

/-!
# Flags and their keywords

Every flag is one bit and has one keyword, which is a plain word. A set of known flags is
therefore read back from its keywords.
-/

namespace StackMaps

open Text Listing

namespace FlagTable

/-- Different plain words for single bits. -/
structure IsTable (table : FlagTable) : Prop where
  nodup : (table.map Prod.fst).Nodup
  isWord : ∀ flag ∈ table, IsWord flag.1.toList
  isPlain : ∀ flag ∈ table, IsPlain flag.1.toList
  isBit : ∀ flag ∈ table, ∃ place : Fin 16, flag.2.toBitVec = BitVec.twoPow 16 place

variable {table : FlagTable} {flag : String × UInt16}

/-- A bit that is not missing is there as a whole. -/
theorem IsTable.and_eq (isTable : table.IsTable) (present : flag ∈ table) {bits : UInt16}
    (found : bits &&& flag.2 ≠ 0) : bits &&& flag.2 = flag.2 := by
  obtain ⟨place, isBit⟩ := isTable.isBit flag present
  have meet := BitVec.and_twoPow bits.toBitVec place
  rw [← isBit, ← UInt16.toBitVec_and] at meet
  split at meet
  · exact UInt16.toBitVec_inj.mp meet
  · exact absurd (UInt16.toBitVec_inj.mp meet) found

theorem IsTable.bit?_eq (isTable : table.IsTable) (present : flag ∈ table) :
    table.bit? flag.1 = some flag.2 := by
  have nodup := isTable.nodup
  unfold bit?
  clear isTable
  induction table with
  | nil => exact absurd present List.not_mem_nil
  | cons first others hypothesis =>
      rw [List.map_cons, List.nodup_cons] at nodup
      rcases List.mem_cons.mp present with rfl | later
      · exact List.lookup_cons_self
      · have apart : (flag.1 == first.1) = false := by
          refine beq_eq_false_iff_ne.mpr fun same => nodup.1 ?_
          exact same ▸ List.mem_map_of_mem later
        obtain ⟨keyword, bit⟩ := first
        rw [List.lookup_cons, apart]
        exact hypothesis later nodup.2

theorem mem_of_bit?_eq {keyword : String} {bit : UInt16} (found : table.bit? keyword = some bit) :
    (keyword, bit) ∈ table := by
  obtain ⟨front, back, rfl, _⟩ := List.lookup_eq_some_iff.mp found
  simp

/-- The bits of flags behind other bits. -/
theorem foldl_or (flags : FlagTable) (bits : UInt16) :
    flags.foldl (fun bits flag => bits ||| flag.2) bits = bits ||| flags.mask := by
  unfold mask
  induction flags generalizing bits with
  | nil => simp
  | cons flag flags hypothesis =>
      rw [List.foldl_cons, List.foldl_cons, hypothesis, hypothesis (0 ||| flag.2), UInt16.zero_or,
        UInt16.or_assoc]

theorem mask_cons (flag : String × UInt16) (flags : FlagTable) :
    mask (flag :: flags) = flag.2 ||| mask flags := by
  rw [mask, List.foldl_cons, foldl_or, UInt16.zero_or]

theorem and_or_distrib (bits left right : UInt16) :
    bits &&& (left ||| right) = (bits &&& left) ||| (bits &&& right) :=
  UInt16.toBitVec_inj.mp BitVec.and_or_distrib_left

theorem or_and_distrib (left right bits : UInt16) :
    (left ||| right) &&& bits = (left &&& bits) ||| (right &&& bits) :=
  UInt16.toBitVec_inj.mp BitVec.and_or_distrib_right

theorem or_and_self (bits other : UInt16) : bits ||| (bits &&& other) = bits := by
  refine UInt16.toBitVec_inj.mp (BitVec.eq_of_getLsbD_eq fun place _ => ?_)
  rw [UInt16.toBitVec_or, UInt16.toBitVec_and, BitVec.getLsbD_or, BitVec.getLsbD_and]
  cases bits.toBitVec.getLsbD place <;> rfl

/-- A flag is among the known bits. -/
theorem and_mask (present : flag ∈ table) : flag.2 &&& table.mask = flag.2 := by
  induction table with
  | nil => exact absurd present List.not_mem_nil
  | cons first others hypothesis =>
      rw [mask_cons, and_or_distrib]
      rcases List.mem_cons.mp present with rfl | later
      · rw [UInt16.and_self, or_and_self]
      · rw [hypothesis later, UInt16.or_comm, or_and_self]

/-! ## Reading -/

variable {α : Type} {ofKeyword? : String → Option α} {unknown : String → ListingFault}
  {union : α → α → α} {make : UInt16 → α}

/-- Keywords are read as the bits that they stand for, behind other bits. -/
theorem IsTable.foldlM_keywords
    (isTable : table.IsTable)
    (named : ∀ keyword, ofKeyword? keyword = (table.bit? keyword).map make)
    (joined : ∀ left right, union (make left) (make right) = make (left ||| right))
    (bits start : UInt16)
    {flags : FlagTable}
    (listed : ∀ flag ∈ flags, flag ∈ table) :
    readFlags ofKeyword? unknown union (make start) (flags.keywords bits) =
      .ok (make (start ||| (bits &&& flags.mask))) := by
  induction flags generalizing start with
  | nil =>
      have nothing : start ||| (bits &&& mask []) = start := by simp [mask]
      rw [nothing]
      rfl
  | cons flag flags hypothesis =>
      obtain ⟨present, others⟩ := List.forall_mem_cons.mp listed
      rw [mask_cons, and_or_distrib, ← UInt16.or_assoc]
      by_cases missing : bits &&& flag.2 = 0
      · have keywords_eq : keywords (flag :: flags) bits = keywords flags bits := by
          simp [keywords, missing]
        rw [keywords_eq, missing, UInt16.or_zero]
        exact hypothesis start others
      · have keywords_eq : keywords (flag :: flags) bits = flag.1 :: keywords flags bits := by
          simp [keywords, missing]
        have step : readFlags ofKeyword? unknown union (make start)
            (flag.1 :: keywords flags bits) =
            readFlags ofKeyword? unknown union (make (start ||| flag.2)) (keywords flags bits) := by
          rw [readFlags, List.foldlM_cons, named, isTable.bit?_eq present]
          change Except.ok (union (make start) (make flag.2)) >>= _ = _
          rw [joined]
          rfl
        rw [keywords_eq, step, isTable.and_eq present missing]
        exact hypothesis (start ||| flag.2) others

/-- The keywords of known flags are read as these flags. -/
theorem IsTable.readFlags_keywords
    (isTable : table.IsTable)
    (named : ∀ keyword, ofKeyword? keyword = (table.bit? keyword).map make)
    (joined : ∀ left right, union (make left) (make right) = make (left ||| right))
    {bits : UInt16}
    (known : bits &&& table.mask = bits) :
    readFlags ofKeyword? unknown union (make 0) (table.keywords bits) = .ok (make bits) := by
  have reads := @IsTable.foldlM_keywords _ _ _ unknown _ _ isTable named joined bits 0 _ fun _ => id
  rwa [known, UInt16.zero_or] at reads

/-- What is read from keywords are known flags. -/
theorem exists_of_readFlags
    (named : ∀ keyword, ofKeyword? keyword = (table.bit? keyword).map make)
    (joined : ∀ left right, union (make left) (make right) = make (left ||| right))
    {words : List String}
    {start : UInt16}
    (known : start &&& table.mask = start)
    {flags : α}
    (read : readFlags ofKeyword? unknown union (make start) words = .ok flags) :
    ∃ bits, flags = make bits ∧ bits &&& table.mask = bits := by
  induction words generalizing start with
  | nil => exact ⟨start, (Except.ok.inj read).symm, known⟩
  | cons word words hypothesis =>
      rw [readFlags, List.foldlM_cons, named] at read
      cases found : table.bit? word with
      | none =>
          rw [found] at read
          cases read
      | some bit =>
          rw [found] at read
          change Except.ok (union (make start) (make bit)) >>= _ = _ at read
          rw [joined] at read
          refine hypothesis ?_ read
          rw [or_and_distrib, known, and_mask (mem_of_bit?_eq found)]

/-- What is read as flags is a list of their keywords. -/
theorem IsTable.isPlain_of_readFlags
    (isTable : table.IsTable)
    (named : ∀ keyword, ofKeyword? keyword = (table.bit? keyword).map make)
    {words : List String}
    {start flags : α}
    (read : readFlags ofKeyword? unknown union start words = .ok flags) :
    ∀ word ∈ words, IsPlain word.toList := by
  induction words generalizing start with
  | nil => exact fun _ absent => absurd absent List.not_mem_nil
  | cons word words hypothesis =>
      rw [readFlags, List.foldlM_cons, named] at read
      cases found : table.bit? word with
      | none =>
          rw [found] at read
          cases read
      | some bit =>
          rw [found] at read
          exact List.forall_mem_cons.mpr
            ⟨isTable.isPlain _ (mem_of_bit?_eq found), hypothesis read⟩

theorem IsTable.isWord_keywords (isTable : table.IsTable) (bits : UInt16) :
    AreWords (table.keywords bits) := by
  intro keyword present
  obtain ⟨flag, isFlag, rfl⟩ := List.mem_map.mp present
  exact isTable.isWord flag (List.mem_of_mem_filter isFlag)

theorem IsTable.isPlain_keywords (isTable : table.IsTable) (bits : UInt16) :
    ∀ keyword ∈ table.keywords bits, IsPlain keyword.toList := by
  intro keyword present
  obtain ⟨flag, isFlag, rfl⟩ := List.mem_map.mp present
  exact isTable.isPlain flag (List.mem_of_mem_filter isFlag)

end FlagTable

/-! ## The two tables -/

theorem isTable_classFlagTable : classFlagTable.IsTable where
  nodup := by decide +kernel
  isWord := by decide +kernel
  isPlain := by decide +kernel
  isBit := by decide +kernel

theorem isTable_methodFlagTable : methodFlagTable.IsTable where
  nodup := by decide +kernel
  isWord := by decide +kernel
  isPlain := by decide +kernel
  isBit := by decide +kernel

/-- Read the keywords of the flags of a class. -/
theorem readFlags_classKeywords {flags : ClassFlags} (known : .ofBits flags.bits = flags) :
    readFlags ClassFlags.ofKeyword? .unknownClassFlag ClassFlags.union .empty flags.keywords =
      .ok flags :=
  @FlagTable.IsTable.readFlags_keywords _ _ _ _ _ ClassFlags.mk isTable_classFlagTable
    (fun _ => rfl) (fun _ _ => rfl) _ (congrArg ClassFlags.bits known)

theorem ofBits_of_readClassFlags
    {words : List String}
    {flags : ClassFlags}
    (read : readFlags ClassFlags.ofKeyword? .unknownClassFlag ClassFlags.union .empty words =
      .ok flags) :
    .ofBits flags.bits = flags := by
  obtain ⟨bits, rfl, known⟩ := @FlagTable.exists_of_readFlags classFlagTable _ _ _ _
    ClassFlags.mk (fun _ => rfl) (fun _ _ => rfl) _ 0 UInt16.zero_and _ read
  exact congrArg ClassFlags.mk known

theorem isPlain_of_readClassFlags
    {words : List String}
    {flags : ClassFlags}
    (read : readFlags ClassFlags.ofKeyword? .unknownClassFlag ClassFlags.union .empty words =
      .ok flags) :
    ∀ word ∈ words, IsPlain word.toList :=
  @FlagTable.IsTable.isPlain_of_readFlags _ _ _ _ _ ClassFlags.mk isTable_classFlagTable
    (fun _ => rfl) _ _ _ read

/-- Read the keywords of the flags of a method. -/
theorem readFlags_methodKeywords {flags : MethodFlags} (known : .ofBits flags.bits = flags) :
    readFlags MethodFlags.ofKeyword? .unknownMethodFlag MethodFlags.union .empty flags.keywords =
      .ok flags :=
  @FlagTable.IsTable.readFlags_keywords _ _ _ _ _ MethodFlags.mk isTable_methodFlagTable
    (fun _ => rfl) (fun _ _ => rfl) _ (congrArg MethodFlags.bits known)

theorem ofBits_of_readMethodFlags
    {words : List String}
    {flags : MethodFlags}
    (read : readFlags MethodFlags.ofKeyword? .unknownMethodFlag MethodFlags.union .empty words =
      .ok flags) :
    .ofBits flags.bits = flags := by
  obtain ⟨bits, rfl, known⟩ := @FlagTable.exists_of_readFlags methodFlagTable _ _ _ _
    MethodFlags.mk (fun _ => rfl) (fun _ _ => rfl) _ 0 UInt16.zero_and _ read
  exact congrArg MethodFlags.mk known

theorem isPlain_of_readMethodFlags
    {words : List String}
    {flags : MethodFlags}
    (read : readFlags MethodFlags.ofKeyword? .unknownMethodFlag MethodFlags.union .empty words =
      .ok flags) :
    ∀ word ∈ words, IsPlain word.toList :=
  @FlagTable.IsTable.isPlain_of_readFlags _ _ _ _ _ MethodFlags.mk isTable_methodFlagTable
    (fun _ => rfl) _ _ _ read

end StackMaps
