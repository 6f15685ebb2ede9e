import StackMaps.Proofs.Body.Weaving
import Mathlib.Data.List.TakeWhile

/-!
# Placed labels

Labels are put into a body by their positions. These may come in any order and more than once,
and may lie behind the last instruction. The gap in front of an instruction takes the labels for
its position in the order in which they are given, and the end takes the others in the order of
their positions. A mark that was there before moves by the number of labels for the positions up
to its own. Labels for different positions of the body are woven in.
-/

namespace StackMaps
namespace Body

/-- The labels for one position, in the order in which they are given. -/
def placementsAt (placements : List (Nat × Label)) (position : Nat) : List (Nat × Label) :=
  placements.filter (·.1 == position)

/-- The labels ascend by position. -/
def Ascending (placements : List (Nat × Label)) : Prop :=
  placements.Pairwise fun earlier later => earlier.1 ≤ later.1

/-- Instructions from a position on, each of them behind the labels for its position. -/
def interleave
    (placements : List (Nat × Label))
    (position : Nat)
    (instructions : List Instruction) : List Instruction :=
  (instructions.zipIdx position).flatMap fun entry =>
    marks (placementsAt placements entry.2) ++ [entry.1]

/-- The labels for the positions from one on, in the order of the positions. Those for the same
position are in the order in which they are given. -/
structure IsRestFrom
    (position : Nat)
    (placements rest : List (Nat × Label)) : Prop where
  ascending : Ascending rest
  placementsAt_eq : ∀ other,
    placementsAt rest other = if position ≤ other then placementsAt placements other else []

/-- Labels have been put into a body exactly where they are asked for. -/
structure Receives (body : Body) (placements : List (Nat × Label)) (after : Body) : Prop where
  /-- The instructions are in their order, each of them behind the labels for its position, and
  the labels for no instruction are behind all of them. -/
  instructions_eq : ∃ rest, IsRestFrom body.instructions.length placements rest ∧
    after.instructions = interleave placements 0 body.instructions ++ marks rest
  /-- There is one mark more for each label. -/
  perm : after.instructions.Perm (body.instructions ++ marks placements)
  /-- Other labels move by the number of labels for the positions up to their own. -/
  positionOf?_eq : ∀ label, (∀ placement ∈ placements, placement.2 ≠ label) →
    after.positionOf? label = (body.positionOf? label).map fun position =>
      position + placements.countP (·.1 ≤ position)
  /-- Nothing but the instructions has changed. -/
  unchanged : after = { body with instructions := after.instructions }

variable {placements others : List (Nat × Label)} {position : Nat} {label : Label}
  {instructions done : List Instruction}

@[simp] theorem interleave_nil : interleave placements position [] = [] := rfl

theorem interleave_cons (instruction : Instruction) :
    interleave placements position (instruction :: instructions) =
      marks (placementsAt placements position) ++
        instruction :: interleave placements (position + 1) instructions := by
  simp [interleave]

/-- Only the labels for the positions of the instructions matter. -/
theorem interleave_congr
    (same : ∀ place, position ≤ place → placementsAt placements place = placementsAt others place) :
    interleave placements position instructions = interleave others position instructions := by
  refine List.flatMap_congr fun entry present => ?_
  rw [same entry.2 (List.le_snd_of_mem_zipIdx present)]

/-! ## Labels in order -/

theorem ascending_mergeSort (placements : List (Nat × Label)) :
    Ascending (placements.mergeSort fun left right => left.1 ≤ right.1) := by
  have sorted := @List.pairwise_mergeSort _ (fun left right : Nat × Label => left.1 ≤ right.1)
    (by simpa using fun _ _ _ => Nat.le_trans) (by simpa using fun left right => Nat.le_total _ _)
    placements
  simpa [Ascending] using sorted

/-- Labels for one position keep their order when all are put in order. -/
theorem placementsAt_mergeSort (placements : List (Nat × Label)) (position : Nat) :
    placementsAt (placements.mergeSort fun left right => left.1 ≤ right.1) position =
      placementsAt placements position := by
  have level : (placementsAt placements position).Pairwise
      fun left right => (left.1 ≤ right.1 : Bool) := by
    refine List.pairwise_of_forall_mem_list fun left inLeft right inRight => ?_
    have left_eq := beq_iff_eq.mp (List.mem_filter.mp inLeft).2
    have right_eq := beq_iff_eq.mp (List.mem_filter.mp inRight).2
    simp [left_eq, right_eq]
  have among := List.sublist_mergeSort (by simpa using fun _ _ _ => Nat.le_trans)
    (by simpa using fun left right => Nat.le_total _ _) level List.filter_sublist
  have within : (placementsAt placements position).Sublist (placementsAt
      (placements.mergeSort fun left right => left.1 ≤ right.1) position) := by
    simpa [placementsAt] using among.filter (·.1 == position)
  exact (within.eq_of_length ((List.mergeSort_perm _ _).filter _).length_eq.symm).symm

theorem placementsAt_filter (other : Nat) :
    placementsAt (placements.filter (position ≤ ·.1)) other =
      if position ≤ other then placementsAt placements other else [] := by
  rw [placementsAt, List.filter_filter]
  split
  next reached =>
    refine List.filter_congr fun placement _ => ?_
    rw [Bool.and_eq_left_iff_imp, beq_iff_eq, decide_eq_true_eq]
    rintro rfl
    exact reached
  next passed =>
    refine List.filter_eq_nil_iff.mpr fun placement _ => ?_
    simp only [Bool.and_eq_true, beq_iff_eq, decide_eq_true_eq, not_and]
    rintro rfl
    exact passed

theorem isRestFrom_filter (ascending : Ascending placements) (position : Nat) :
    IsRestFrom position placements (placements.filter (position ≤ ·.1)) :=
  ⟨ascending.filter _, placementsAt_filter⟩

theorem IsRestFrom.mem
    {rest : List (Nat × Label)}
    (isRest : IsRestFrom position placements rest)
    {placement : Nat × Label}
    (present : placement ∈ rest) :
    placement ∈ placements ∧ position ≤ placement.1 := by
  have here : placement ∈ placementsAt rest placement.1 :=
    List.mem_filter.mpr ⟨present, beq_iff_eq.mpr rfl⟩
  rw [isRest.placementsAt_eq] at here
  split at here
  next behind => exact ⟨List.mem_of_mem_filter here, behind⟩
  next => exact absurd here List.not_mem_nil

/-- Labels that are put further behind are not put here. -/
theorem span_of_later (later : ∀ placement ∈ placements, position < placement.1) :
    (placements.takeWhile fun placement => placement.1 ≤ position) = [] ∧
    (placements.dropWhile fun placement => placement.1 ≤ position) = placements := by
  rw [List.takeWhile_eq_nil_iff, List.dropWhile_eq_self_iff]
  refine ⟨fun filled => ?_, fun filled => ?_⟩ <;>
    simpa using later _ (List.getElem_mem filled)

/-- Ascending labels from a position on begin with those for the position. -/
theorem span_of_ascending
    (ascending : Ascending placements)
    (fromHere : ∀ placement ∈ placements, position ≤ placement.1) :
    (placements.takeWhile fun placement => placement.1 ≤ position) =
      placementsAt placements position ∧
    (placements.dropWhile fun placement => placement.1 ≤ position) =
      placements.filter (position + 1 ≤ ·.1) := by
  induction placements with
  | nil => exact ⟨rfl, rfl⟩
  | cons first rest hypothesis =>
      obtain ⟨behind, ascendingRest⟩ := List.pairwise_cons.mp ascending
      obtain ⟨fromFirst, fromRest⟩ := List.forall_mem_cons.mp fromHere
      by_cases here : first.1 = position
      · obtain ⟨front_eq, back_eq⟩ := hypothesis ascendingRest fromRest
        simp [placementsAt, here, front_eq, back_eq]
      · have later : ∀ placement ∈ first :: rest, position < placement.1 := by
          refine List.forall_mem_cons.mpr ⟨by omega, fun placement present => ?_⟩
          have := behind placement present
          omega
        have none_here : placementsAt (first :: rest) position = [] := by
          refine List.filter_eq_nil_iff.mpr fun placement present => ?_
          simpa using (Nat.ne_of_lt (later placement present)).symm
        have all_later : (first :: rest).filter (position + 1 ≤ ·.1) = first :: rest :=
          List.filter_eq_self.mpr fun placement present => decide_eq_true (later placement present)
        rw [none_here, all_later]
        exact span_of_later later

/-- Ascending labels go between the instructions at their positions, and what is left of them
goes to the end. -/
theorem weaveOnto_of_ascending
    (ascending : Ascending placements)
    (fromHere : ∀ placement ∈ placements, position ≤ placement.1) :
    weaveOnto done position placements instructions =
      done.reverse ++ interleave placements position instructions ++
        marks (placements.filter (position + instructions.length ≤ ·.1)) := by
  induction instructions generalizing done position placements with
  | nil =>
      have all : placements.filter (position ≤ ·.1) = placements :=
        List.filter_eq_self.mpr fun placement present => decide_eq_true (fromHere placement present)
      simp [weaveOnto, all]
  | cons instruction rest hypothesis =>
      obtain ⟨front_eq, back_eq⟩ := span_of_ascending ascending fromHere
      have fromNext : ∀ placement ∈ placements.filter (position + 1 ≤ ·.1),
          position + 1 ≤ placement.1 := fun placement present => by
        simpa using (List.mem_filter.mp present).2
      have same : interleave (placements.filter (position + 1 ≤ ·.1)) (position + 1) rest =
          interleave placements (position + 1) rest :=
        interleave_congr fun place later => by rw [placementsAt_filter, if_pos later]
      have left : (placements.filter (position + 1 ≤ ·.1)).filter
            (position + 1 + rest.length ≤ ·.1) =
          placements.filter (position + (rest.length + 1) ≤ ·.1) := by
        rw [List.filter_filter]
        refine List.filter_congr fun placement _ => ?_
        rw [← Bool.decide_and]
        exact decide_eq_decide.mpr (by omega)
      rw [weaveOnto, front_eq, back_eq, hypothesis (ascending.filter _) fromNext, same, left,
        interleave_cons]
      simp

/-! ## One mark for each label -/

/-- Nothing is lost and nothing but the labels is added. -/
theorem perm_weaveOnto
    (done : List Instruction)
    (position : Nat)
    (placements : List (Nat × Label))
    (instructions : List Instruction) :
    (weaveOnto done position placements instructions).Perm
      (done ++ instructions ++ marks placements) := by
  induction instructions generalizing done position placements with
  | nil => simpa [weaveOnto] using (List.reverse_perm done).append_right _
  | cons instruction rest hypothesis =>
      have cut : marks placements =
          marks (placements.takeWhile fun placement => placement.1 ≤ position) ++
            marks (placements.dropWhile fun placement => placement.1 ≤ position) := by
        rw [marks, marks, marks, ← List.map_append, List.takeWhile_append_dropWhile]
      refine (hypothesis _ _ _).trans (List.perm_iff_count.mpr fun other => ?_)
      rw [cut]
      simp only [List.count_append, List.count_cons, List.count_reverse]
      omega

/-! ## Positions of other labels -/

theorem findIdx?_marks (absent : ∀ placement ∈ placements, placement.2 ≠ label) :
    ((marks placements).findIdx? fun instruction => instruction.marks? == some label) = none := by
  refine List.findIdx?_eq_none_iff.mpr fun instruction present => ?_
  obtain ⟨placement, among, rfl⟩ := List.mem_map.mp present
  simpa [Instruction.marks?] using absent placement among

/-- The labels for some positions are those for the first one and those for the others. -/
theorem countP_placements (placements : List (Nat × Label)) (position offset : Nat) :
    placements.countP (fun placement =>
        position ≤ placement.1 && placement.1 ≤ position + (offset + 1)) =
      (placementsAt placements position).length +
        placements.countP fun placement =>
          position + 1 ≤ placement.1 && placement.1 ≤ position + 1 + offset := by
  rw [List.countP_eq_countP_filter_add placements _ (·.1 == position), List.countP_filter,
    List.countP_filter, placementsAt, ← List.countP_eq_length_filter]
  refine congrArg₂ (· + ·) (List.countP_congr fun placement _ => ?_)
    (List.countP_congr fun placement _ => ?_)
  · simp only [Bool.and_eq_true, decide_eq_true_eq, beq_iff_eq]
    omega
  · simp only [Bool.and_eq_true, Bool.not_eq_true', decide_eq_true_eq, beq_eq_false_iff_ne]
    omega

/-- Another label is found behind the labels for the positions up to its own. -/
theorem findIdx?_interleave
    (absent : ∀ placement ∈ placements, placement.2 ≠ label)
    (absentBehind : ∀ placement ∈ others, placement.2 ≠ label) :
    ((interleave placements position instructions ++ marks others).findIdx?
        fun instruction => instruction.marks? == some label) =
      (instructions.findIdx? fun instruction => instruction.marks? == some label).map
        fun offset => offset + placements.countP fun placement =>
          position ≤ placement.1 && placement.1 ≤ position + offset := by
  induction instructions generalizing position with
  | nil => simpa using findIdx?_marks absentBehind
  | cons instruction rest hypothesis =>
      have absentHere : ∀ placement ∈ placementsAt placements position, placement.2 ≠ label :=
        fun placement present => absent placement (List.mem_of_mem_filter present)
      rw [interleave_cons, List.append_assoc, List.findIdx?_append, findIdx?_marks absentHere,
        List.cons_append, List.findIdx?_cons, List.findIdx?_cons, hypothesis, Option.none_or]
      have length_eq : (marks (placementsAt placements position)).length =
          (placementsAt placements position).length := List.length_map _
      split
      · have here : placements.countP (fun placement =>
            position ≤ placement.1 && placement.1 ≤ position + 0) =
              (placementsAt placements position).length := by
          rw [placementsAt, ← List.countP_eq_length_filter]
          refine List.countP_congr fun placement _ => ?_
          simp only [Bool.and_eq_true, decide_eq_true_eq, beq_iff_eq]
          omega
        rw [Option.map_some, Option.map_some, length_eq, here]
      · rw [Option.map_map, Option.map_map, Option.map_map]
        refine congrArg (Option.map · _) (funext fun offset => ?_)
        simp only [Function.comp_apply, countP_placements placements position offset, length_eq]
        omega

/-! ## Labels for different positions -/

/-- The first label that is to be put in front of the instruction at a position. -/
def placedAt? (placements : List (Nat × Label)) (position : Nat) : Option Label :=
  placements.lookup position

/-- At most one label is put at a position if the positions are different. -/
theorem marks_placementsAt
    (ascending : placements.Pairwise fun earlier later => earlier.1 < later.1)
    (position : Nat) :
    marks (placementsAt placements position) =
      (placedAt? placements position).toList.map .mark := by
  induction placements with
  | nil => rfl
  | cons first rest hypothesis =>
      obtain ⟨behind, ascendingRest⟩ := List.pairwise_cons.mp ascending
      obtain ⟨place, label⟩ := first
      by_cases here : place = position
      · subst here
        have no_more : placementsAt rest place = [] := by
          refine List.filter_eq_nil_iff.mpr fun placement present => ?_
          simpa using (Nat.ne_of_lt (behind placement present)).symm
        rw [placementsAt, List.filter_cons_of_pos (by simp), ← placementsAt, no_more]
        simp [placedAt?, marks]
      · have elsewhere : (position == place) = false :=
          beq_eq_false_iff_ne.mpr fun same => here same.symm
        rw [placementsAt, List.filter_cons_of_neg (by simpa using here), ← placementsAt,
          hypothesis ascendingRest, placedAt?, placedAt?, List.lookup_cons, elsewhere]

theorem interleave_eq_weave
    (ascending : placements.Pairwise fun earlier later => earlier.1 < later.1) :
    interleave placements position instructions =
      weave (placedAt? placements) position instructions := by
  induction instructions generalizing position with
  | nil => rfl
  | cons instruction rest hypothesis =>
      rw [interleave_cons, marks_placementsAt ascending, hypothesis]
      rfl

/-! ## Placing -/

/-- The instructions stay in order between the labels. -/
theorem exists_placeLabels_eq
    (placements : List (Nat × Label))
    (instructions : List Instruction) :
    ∃ rest, IsRestFrom instructions.length placements rest ∧
      placeLabels instructions placements =
        interleave placements 0 instructions ++ marks rest := by
  have ascending := ascending_mergeSort placements
  obtain ⟨restAscending, placementsAt_eq⟩ := isRestFrom_filter ascending instructions.length
  refine ⟨_, ⟨restAscending, fun other => ?_⟩, ?_⟩
  · rw [placementsAt_eq, placementsAt_mergeSort]
  · rw [placeLabels, weaveOnto_of_ascending ascending fun _ _ => Nat.zero_le _, Nat.zero_add,
      interleave_congr fun place _ => placementsAt_mergeSort placements place]
    rfl

theorem perm_placeLabels (placements : List (Nat × Label)) (instructions : List Instruction) :
    (placeLabels instructions placements).Perm (instructions ++ marks placements) :=
  (perm_weaveOnto [] 0 _ instructions).trans
    (((List.mergeSort_perm placements _).map _).append_left _)

theorem sublist_placeLabels (instructions : List Instruction) (placements : List (Nat × Label)) :
    instructions.Sublist (placeLabels instructions placements) := by
  have sublist_interleave : ∀ position,
      instructions.Sublist (interleave placements position instructions) := by
    induction instructions with
    | nil => exact fun _ => .slnil
    | cons instruction rest hypothesis =>
        intro position
        rw [interleave_cons]
        exact ((hypothesis (position + 1)).cons_cons instruction).trans
          (List.sublist_append_right _ _)
  obtain ⟨rest, _, placeLabels_eq⟩ := exists_placeLabels_eq placements instructions
  rw [placeLabels_eq]
  exact (sublist_interleave 0).trans (List.sublist_append_left _ _)

/-- Only marks are put between the instructions. -/
theorem filter_placeLabels (instructions : List Instruction) (placements : List (Nat × Label)) :
    (placeLabels instructions placements).filter (!·.isMark) =
      instructions.filter (!·.isMark) := by
  have unreal : ∀ placements : List (Nat × Label),
      (marks placements).filter (!·.isMark) = [] := by
    intro placements
    rw [marks, List.filter_map, List.map_eq_nil_iff]
    exact List.filter_eq_nil_iff.mpr fun _ _ => Bool.false_ne_true
  have filter_interleave : ∀ position,
      (interleave placements position instructions).filter (!·.isMark) =
        instructions.filter (!·.isMark) := by
    induction instructions with
    | nil => exact fun _ => rfl
    | cons instruction rest hypothesis =>
        intro position
        rw [interleave_cons, List.filter_append, unreal, List.nil_append, List.filter_cons,
          List.filter_cons, hypothesis]
  obtain ⟨rest, _, placeLabels_eq⟩ := exists_placeLabels_eq placements instructions
  rw [placeLabels_eq, List.filter_append, unreal, List.append_nil, filter_interleave]

/-- Labels that are put at different positions of a body are woven in. -/
theorem placeLabels_eq
    {placements : List (Nat × Label)}
    {instructions : List Instruction}
    (ascending : placements.Pairwise fun earlier later => earlier.1 < later.1)
    (within : ∀ placement ∈ placements, placement.1 < instructions.length) :
    placeLabels instructions placements = weave (placedAt? placements) 0 instructions := by
  obtain ⟨rest, isRest, whole⟩ := exists_placeLabels_eq placements instructions
  have empty : rest = [] := by
    refine List.eq_nil_iff_forall_not_mem.mpr fun placement present => ?_
    obtain ⟨among, behind⟩ := isRest.mem present
    exact absurd (within placement among) (Nat.not_lt.mpr behind)
  rw [whole, empty, interleave_eq_weave ascending]
  exact List.append_nil _

/-- Labels are put into a body exactly where they are asked for. -/
theorem receives_injectLabels (body : Body) (placements : List (Nat × Label)) :
    body.Receives placements (body.injectLabels placements) := by
  obtain ⟨rest, isRest, instructions_eq⟩ := exists_placeLabels_eq placements body.instructions
  refine ⟨⟨rest, isRest, instructions_eq⟩, perm_placeLabels placements body.instructions, ?_, rfl⟩
  intro label absent
  have absentBehind : ∀ placement ∈ rest, placement.2 ≠ label :=
    fun placement present => absent placement (isRest.mem present).1
  have found := @findIdx?_interleave placements rest 0 label body.instructions absent absentBehind
  rw [positionOf?, positionOf?, show (body.injectLabels placements).instructions = _ from
    instructions_eq, found]
  simp

/-- Labels in no order, some of them for one position and some for none. -/
def scattered : List (Nat × Label) :=
  [(4, ⟨6⟩), (1, ⟨3⟩), (3, ⟨5⟩), (1, ⟨2⟩), (4, ⟨7⟩), (0, ⟨1⟩), (2, ⟨4⟩)]

/-- A body with a label of its own. -/
def labelled : Body :=
  .ofInstructions [.simple .iconst0, .mark ⟨0⟩, .simple .returnVoid] [] ⟨1⟩

/-- The labels go to four gaps, and the label of the body moves by three of them. -/
theorem receives_injectLabels_scattered :
    (∀ placement ∈ scattered, placement.2 ≠ ⟨0⟩) ∧
      (labelled.injectLabels scattered).instructions =
        [.mark ⟨1⟩, .simple .iconst0, .mark ⟨3⟩, .mark ⟨2⟩, .mark ⟨0⟩, .mark ⟨4⟩,
          .simple .returnVoid, .mark ⟨5⟩, .mark ⟨6⟩, .mark ⟨7⟩] ∧
      (labelled.injectLabels scattered).positionOf? ⟨0⟩ = some (1 + 3) := by
  have absent : ∀ placement ∈ scattered, placement.2 ≠ ⟨0⟩ := by decide
  refine ⟨absent, ?_, ?_⟩
  · simp [labelled, scattered, Body.ofInstructions, injectLabels, placeLabels, weaveOnto, marks,
      List.mergeSort, List.MergeSort.Internal.splitInTwo]
  · rw [(receives_injectLabels labelled scattered).positionOf?_eq ⟨0⟩ absent]
    decide

end Body
end StackMaps
