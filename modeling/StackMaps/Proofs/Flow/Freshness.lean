import StackMaps.Proofs.Flow.Tidiness

/-!
# The freshness of allocations

In a tidy inference a merge adds no uninitialized object to an entry that has been
reached. The first entry of a block comes from paths that have not yet been through it,
so no object that the block allocates is ever there when the block is entered again.
-/

namespace StackMaps
namespace FlowGraph

/-- The entry of a block never mentions an origin, and no other entry does before the block
has been reached. -/
structure Unstale (home origin : Nat) (progress : Progress) : Prop where
  atHome : ∀ state, (progress.notesOn home).inputState = some state → ¬state.Mentions origin
  before : (progress.notesOn home).inputState = none →
    ∀ index, (progress.notesOn index).All (· ≠ some (.uninitialized origin))

/-- During a visit the visited entry is one of those that do not mention the origin too
early. -/
structure UnstaleDuring
    (home origin index : Nat)
    (notes : Notes)
    (progress : Progress) : Prop extends Unstale home origin progress where
  atVisit : index = home →
    (progress.notesOn home).inputState.isSome ∧
      ¬(notes.inputState.getD .empty).Mentions origin
  beforeVisit : (progress.notesOn home).inputState = none →
    (notes.inputState.getD .empty).All (· ≠ some (.uninitialized origin))

section Runs

variable {body : Body} {context : TypingContext} {locals : List Slot}
variable {home origin index : Nat} {homeBlock block : Block} {notes : Notes}
variable {progress : Progress}

/-- Only one block allocates the objects of an origin. -/
theorem allocates_ne
    (homeFound : (ofBody body).blocks[home]? = some homeBlock)
    (covers : homeBlock.start ≤ origin)
    (covered : origin < homeBlock.stop)
    (found : (ofBody body).blocks[index]? = some block)
    (other : index ≠ home)
    (offset : Nat) :
    block.Allocates (· ≠ some (.uninitialized origin)) offset := by
  rintro earlier instruction _ present _ ⟨⟩
  have inside := (List.getElem?_eq_some_iff.mp present).1
  refine other (index_eq_of_covers found (Nat.le_add_right _ _) ?_ homeFound covers covered)
  simp only [Block.stop]
  omega

theorem Unstale.opening
    (filled : 0 < (ofBody body).blocks.size)
    (clean : some (.uninitialized origin) ∉ locals) :
    Unstale home origin ((ofBody body).opening (Notes.enterState locals)) := by
  have blank : Notes.blank.All (· ≠ some (.uninitialized origin)) :=
    ⟨fun _ absent => (by cases absent), (lenient_ne origin).unknown⟩
  have entry : (Notes.enterState locals .blank).All (· ≠ some (.uninitialized origin)) := by
    refine ⟨?_, (lenient_ne origin).unknown⟩
    rintro _ ⟨⟩
    exact ⟨fun slot present same => clean (same ▸ present),
      fun slot absent => absurd absent List.not_mem_nil⟩
  have all : ∀ index,
      (((ofBody body).opening (Notes.enterState locals)).notesOn index).All
        (· ≠ some (.uninitialized origin)) := by
    intro index
    rw [notesOn_opening filled]
    split
    · exact entry
    · exact blank
  exact ⟨fun state entered => SlotState.not_mentions_iff.mpr ((all home).input state entered),
    fun _ => all⟩

/-- A block is taken from the worklist and carried through, which leaves the entries
alone. -/
theorem Unstale.taken
    {rest : Worklist}
    (unstale : Unstale home origin progress)
    (inside : index < progress.notes.size)
    (entered : (progress.notesOn index).inputState.isSome) :
    UnstaleDuring home origin index (progress.notesOn index)
      ((⟨progress.notes, rest⟩ : Progress).record index
        (block.interpret context (progress.notesOn index))) := by
  have same : ∀ other,
      (((⟨progress.notes, rest⟩ : Progress).record index
        (block.interpret context (progress.notesOn index))).notesOn other).inputState =
          (progress.notesOn other).inputState ∧
      (((⟨progress.notes, rest⟩ : Progress).record index
        (block.interpret context (progress.notesOn index))).notesOn other).caught =
          (progress.notesOn other).caught := by
    intro other
    rw [Progress.notesOn_record ⟨progress.notes, rest⟩ _ _ _ inside]
    split
    next here =>
        subst here
        exact ⟨rfl, rfl⟩
    next => exact ⟨rfl, rfl⟩
  obtain ⟨state, state_eq⟩ := Option.isSome_iff_exists.mp entered
  refine ⟨⟨?_, ?_⟩, ?_, ?_⟩
  · intro input input_eq
    rw [(same home).1] at input_eq
    exact unstale.atHome input input_eq
  · intro unreached other
    rw [(same home).1] at unreached
    refine ⟨fun input input_eq => ?_, ?_⟩
    · rw [(same other).1] at input_eq
      exact (unstale.before unreached other).input input input_eq
    · rw [(same other).2]
      exact (unstale.before unreached other).caught
  · rintro rfl
    rw [(same index).1, state_eq]
    exact ⟨rfl, unstale.atHome state state_eq⟩
  · intro unreached
    rw [(same home).1] at unreached
    rw [state_eq]
    exact (unstale.before unreached index).input state state_eq

/-- What passes along an edge mentions no origin whose block has not been reached. -/
theorem UnstaleDuring.carried
    (homeFound : (ofBody body).blocks[home]? = some homeBlock)
    (covers : homeBlock.start ≤ origin)
    (covered : origin < homeBlock.stop)
    (found : (ofBody body).blocks[index]? = some block)
    (unstale : UnstaleDuring home origin index notes progress)
    (unreached : (progress.notesOn home).inputState = none)
    (edge : Edge) :
    (edge.carried context (block.interpret context notes)).All
      (· ≠ some (.uninitialized origin)) := by
  have lenient := lenient_ne origin
  refine Block.all_carried lenient.supply (unstale.beforeVisit unreached)
    (lenient.supplies_method _) (lenient.merges _) (fun _ _ => lenient.supplies _) ?_
    (lenient.throws edge)
  refine allocates_ne homeFound covers covered found ?_
  intro same
  have reached := (unstale.atVisit same).1
  rw [unreached] at reached
  cases reached

/-- A successor receives what passes along an edge. -/
theorem UnstaleDuring.pass
    (tidy : (ofBody body).Tidy context locals)
    (homeFound : (ofBody body).blocks[home]? = some homeBlock)
    (covers : homeBlock.start ≤ origin)
    (covered : origin < homeBlock.stop)
    (size_eq : progress.notes.size = (ofBody body).blocks.size)
    {target : Nat}
    {edge : Edge}
    {targetBlock : Block}
    {pending : List (Nat × Edge)}
    (visiting : (typeAnalysis context).Visiting (ofBody body)
      ((ofBody body).opening (Notes.enterState locals)) index block notes
      ((target, edge) :: pending) progress)
    (crosses : (ofBody body).Crosses index block edge target targetBlock)
    (unstale : UnstaleDuring home origin index notes progress) :
    UnstaleDuring home origin index notes
      ((typeAnalysis context).pass (ofBody body) ((typeAnalysis context).transfer block notes)
        progress (target, edge)) := by
  have noted : ∀ other,
      ((typeAnalysis context).pass (ofBody body) ((typeAnalysis context).transfer block notes)
        progress (target, edge)).notesOn other =
          if other = target then
            (typeAnalysis context).receive targetBlock edge (block.interpret context notes)
              (progress.notesOn target)
          else progress.notesOn other :=
    Analysis.notesOn_pass crosses.target_eq size_eq
  have early : (progress.notesOn home).inputState = none → ∀ other,
      ((typeAnalysis context).receive targetBlock edge (block.interpret context notes)
        (progress.notesOn other)).All (· ≠ some (.uninitialized origin)) :=
    fun unreached other => Block.all_merge ((lenient_ne origin).merges _) (lenient_ne origin).supply
      (unstale.before unreached other)
      (unstale.carried homeFound covers covered visiting.block_eq unreached edge) _ _
  -- Who has been reached stays so, and the successor is reached by now.
  have unreached : ∀ {other},
      (((typeAnalysis context).pass (ofBody body) ((typeAnalysis context).transfer block notes)
        progress (target, edge)).notesOn other).inputState = none →
      (progress.notesOn other).inputState = none :=
    fun none_ => (Analysis.entry_pass_eq_none
      (TypeAnalysis.lawful_true (ofBody body)).toEnters crosses.target_eq
      size_eq none_).2
  refine ⟨⟨?_, ?_⟩, ?_, ?_⟩
  · intro state entered
    rw [noted] at entered
    split at entered
    next same =>
        subst same
        cases homeEntered : (progress.notesOn home).inputState with
        | none =>
            exact SlotState.not_mentions_iff.mpr ((early homeEntered home).input state entered)
        | some before =>
            obtain ⟨input, received, _, backed⟩ := tidy.backedBy_receive visiting crosses
            obtain rfl := Option.some.inj (received.symm.trans entered)
            exact fun mentions =>
              unstale.atHome before homeEntered ((backed before homeEntered).mentions mentions)
    next => exact unstale.atHome state entered
  · intro none_ other
    have before := unreached none_
    rw [noted]
    split
    next same => exact same ▸ early before other
    next => exact unstale.before before other
  · intro same
    refine ⟨Option.isSome_iff_ne_none.mpr fun none_ => ?_, (unstale.atVisit same).2⟩
    exact Option.isSome_iff_ne_none.mp (unstale.atVisit same).1 (unreached none_)
  · intro none_
    exact unstale.beforeVisit (unreached none_)

/-- No entry mentions an origin too early at any moment. -/
theorem Tidy.unstale
    (tidy : (ofBody body).Tidy context locals)
    (clean : some (.uninitialized origin) ∉ locals)
    (homeFound : (ofBody body).blocks[home]? = some homeBlock)
    (covers : homeBlock.start ≤ origin)
    (covered : origin < homeBlock.stop) :
    (∀ moment,
      Progress.Reaches ((typeAnalysis context).visit (ofBody body))
        ((ofBody body).opening (Notes.enterState locals)) moment →
      Unstale home origin moment) ∧
      ∀ index block notes pending progress,
        (typeAnalysis context).Visiting (ofBody body)
          ((ofBody body).opening (Notes.enterState locals)) index block notes pending progress →
        UnstaleDuring home origin index notes progress := by
  have filled : 0 < (ofBody body).blocks.size :=
    Nat.zero_lt_of_lt (Array.getElem?_eq_some_iff.mp homeFound).1
  refine (TypeAnalysis.sound_opening filled locals).induction (closed_ofBody body)
    (TypeAnalysis.lawful_true _) (Unstale home origin)
    (fun index _ notes _ progress => UnstaleDuring home origin index notes progress)
    (Unstale.opening filled clean) ?_ ?_ ?_
  · intro moment index rest block _ now unstale popped _
    exact unstale.taken (now.lt_size popped)
      (now.entered index (Worklist.mem_of_pop_eq_some popped))
  · intro index block notes target edge targetBlock pending progress visiting now crosses unstale
    exact unstale.pass tidy homeFound covers covered now.size_eq visiting crosses
  · intro index block notes progress _ unstale
    exact unstale.toUnstale

/-- In front of an instruction no slot holds an object of an earlier allocation at its
position. -/
theorem Tidy.not_mentions
    (tidy : (ofBody body).Tidy context locals)
    (clean : ∀ origin, some (.uninitialized origin) ∉ locals)
    {pending : List (Nat × Edge)}
    (visiting : (typeAnalysis context).Visiting (ofBody body)
      ((ofBody body).opening (Notes.enterState locals)) index block notes pending progress)
    {offset : Nat}
    (less : offset < block.instructions.length) :
    ¬(block.stateAt context.method (notes.inputState.getD .empty) offset).Mentions
      (block.start + offset) := by
  have covered : block.start + offset < block.stop := Nat.add_lt_add_left less _
  have unstale := (tidy.unstale (clean _) visiting.block_eq (Nat.le_add_right _ _) covered).2
    _ _ _ _ _ visiting
  rw [SlotState.not_mentions_iff]
  have lenient := lenient_ne (block.start + offset)
  refine Block.all_stateAt lenient.supply (SlotState.not_mentions_iff.mp (unstale.atVisit rfl).2)
    (lenient.supplies_method _) (fun _ _ => lenient.supplies _) ?_
  rintro earlier instruction earlierLess _ _ same
  injection same with same
  injection same with same
  omega

end Runs

end FlowGraph

end StackMaps
